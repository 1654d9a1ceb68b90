import FleetServer.Core.Split

/-!
# The URL agents dial

Its host is that of the base URL, and its port that of the listener agents land
on.  Three readers take a URL apart, and a fourth step puts the new one together.
-/

namespace FleetServer
namespace Runtime

open FleetServer.Core

/-!
# The source
-/

/-- `str::parse::<u16>`. -/
def parseU16 (text : List Char) : Option Nat :=
  let digits := (stripPrefix ['+'] text).getD text
  if digits.isEmpty || !digits.all isAsciiDigit then none
  else
    let n := Nat.ofDigitChars 10 digits 0
    if n < 65536 then some n else none

/-- The hostname part of a URL, without scheme, port or path. -/
def hostOf (url : String) : String :=
  let rest := trimStartMatches "https://".toList url.length
    (trimStartMatches "http://".toList url.length url.toList)
  let host := upTo '/' rest
  -- An IPv6 literal stands in brackets.
  match stripPrefix ['['] host with
  | some inner => String.ofList (upTo ']' inner)
  | none => String.ofList (upTo ':' host)

/-- The text before the first `//`, and the text behind it if there is one. -/
def splitSlashes : List Char -> List Char × Option (List Char)
  | '/' :: '/' :: rest => ([], some rest)
  | c :: rest => (c :: (splitSlashes rest).1, (splitSlashes rest).2)
  | [] => ([], none)

def isAuthorityEnd (c : Char) : Bool :=
  c == '/' || c == '?' || c == '#'

def portOfUrl (url : String) : Option Nat :=
  let piece :=
    match (splitSlashes url.toList).2 with
    | some rest => (splitSlashes rest).1
    | none => url.toList
  let authority := piece.takeWhile fun c => !isAuthorityEnd c
  let afterHost :=
    match stripPrefix ['['] authority with
    | some rest =>
        match splitOnce ']' rest with
        | some (_, behind) => upTo ']' behind
        | none => []
    | none => authority
  (rsplitOnce ':' afterHost).bind fun parts => parseU16 parts.2

def portOf (addr : String) (fallback : Nat) : Nat :=
  (parseU16 (upTo ':' addr.toList.reverse).reverse).getD fallback

def deriveAgentMtlsUrl (baseUrl listenHttps listenMtls : String) : String :=
  let host := hostOf baseUrl
  let port :=
    if !listenMtls.isEmpty then portOf listenMtls 9443
    else if "https://".toList.isPrefixOf baseUrl.toList then (portOfUrl baseUrl).getD 443
    else portOf listenHttps 443
  if port = 443 then "https://" ++ host
  else "https://" ++ host ++ ":" ++ toString port

/-!
# URLs and addresses
-/

def isDelimiter (c : Char) : Bool :=
  c == ':' || c == '[' || c == ']' || c == '@' || isAuthorityEnd c

inductive UrlHost where
  | name (text : List Char) (hne : text ≠ [])
      (hchars : forall c, c ∈ text -> isDelimiter c = false)
  | ipv6 (text : List Char) (hcolon : ':' ∈ text)
      (hchars : forall c, c ∈ text -> c = ':' ∨ isDelimiter c = false)

def UrlHost.text : UrlHost -> List Char
  | name text _ _ => text
  | ipv6 text _ _ => '[' :: (text ++ [']'])

def UrlHost.IsIpv6 : UrlHost -> Prop
  | name _ _ _ => False
  | ipv6 _ _ _ => True

structure Port where
  text : List Char
  number : Nat
  reads : parseU16 text = some number

/-- `http(s)://host[:port][/path]`. -/
structure BaseUrl where
  secure : Bool
  host : UrlHost
  port : Option Port
  path : Option (List Char)

def scheme (secure : Bool) : List Char :=
  if secure then "https:".toList else "http:".toList

def portText : Option Port -> List Char
  | none => []
  | some port => ':' :: port.text

def pathText : Option (List Char) -> List Char
  | none => []
  | some path => '/' :: path

def BaseUrl.text (base : BaseUrl) : List Char :=
  scheme base.secure ++
    '/' :: '/' :: (base.host.text ++ (portText base.port ++ pathText base.path))

structure ListenAddr where
  host : List Char
  port : Port

def ListenAddr.text (addr : ListenAddr) : List Char :=
  addr.host ++ ':' :: addr.port.text

def listenText : Option ListenAddr -> List Char
  | none => []
  | some addr => addr.text

def chosenPort (base : BaseUrl) (https : ListenAddr) (mtls : Option ListenAddr) : Nat :=
  match mtls with
  | some addr => addr.port.number
  | none => if base.secure then (base.port.map Port.number).getD 443 else https.port.number

def PointsWhereItShould (base : BaseUrl) (https : ListenAddr) (mtls : Option ListenAddr) :
    Prop :=
  let baseUrl := String.ofList base.text
  let url := deriveAgentMtlsUrl baseUrl (String.ofList https.text)
    (String.ofList (listenText mtls))
  hostOf url = hostOf baseUrl ∧ (portOfUrl url).getD 443 = chosenPort base https mtls

/-!
# Ports
-/

variable {c : Char} {n : Nat} {rest xs : List Char} {port : Option Port}

theorem isDelimiter_digit (h : isAsciiDigit c = true ∨ c = '+') :
    isDelimiter c = false := by
  have hnot : c ≠ ':' ∧ c ≠ '[' ∧ c ≠ ']' ∧ c ≠ '@' ∧ c ≠ '/' ∧ c ≠ '?' ∧ c ≠ '#' := by
    cases h with
    | inl hdigit =>
        refine ⟨?_, ?_, ?_, ?_, ?_, ?_, ?_⟩ <;>
          · intro heq
            rw [heq] at hdigit
            cases hdigit
    | inr hplus =>
        rw [hplus]
        decide
  simp [isDelimiter, isAuthorityEnd, hnot]

theorem parseU16_eq_some {text : List Char} (h : parseU16 text = some n) :
    (text ≠ [] ∧ forall c, c ∈ text -> isDelimiter c = false) ∧ n < 65536 := by
  unfold parseU16 at h
  dsimp only at h
  split at h
  · cases h
  · rename_i hdigits
    simp only [Bool.or_eq_true, not_or, Bool.not_eq_true, Bool.not_eq_false',
      List.all_eq_true] at hdigits
    split at h
    · rename_i hlt
      cases h
      refine ⟨?_, hlt⟩
      cases text with
      | nil => cases hdigits.1
      | cons first rest =>
          refine ⟨List.cons_ne_nil _ _, ?_⟩
          intro c hc
          apply isDelimiter_digit
          rw [stripPrefix_singleton] at hdigits
          split at hdigits
          · rename_i hplus
            cases List.mem_cons.mp hc with
            | inl hfirst => exact Or.inr (hfirst.trans (beq_iff_eq.mp hplus).symm)
            | inr hrest => exact Or.inl (hdigits.2 c hrest)
          · exact Or.inl (hdigits.2 c hc)
    · cases h

theorem Port.text_ne_nil (port : Port) : port.text ≠ [] :=
  (parseU16_eq_some port.reads).1.1

theorem Port.not_delimiter (port : Port) (h : c ∈ port.text) :
    isDelimiter c = false :=
  (parseU16_eq_some port.reads).1.2 c h

theorem Port.number_lt (port : Port) : port.number < 65536 :=
  (parseU16_eq_some port.reads).2

theorem parseU16_toString (h : n < 65536) : parseU16 (toString n).toList = some n := by
  have htext : (toString n).toList = Nat.toDigits 10 n := String.toList_ofList
  have hdigits : forall c, c ∈ Nat.toDigits 10 n -> isAsciiDigit c = true := by
    intro c hc
    have hdigit := Nat.isDigit_of_mem_toDigits (by decide) (by decide) hc
    simpa [isAsciiDigit, Char.isDigit, Char.le_def] using hdigit
  have hplain : (stripPrefix ['+'] (Nat.toDigits 10 n)).getD (Nat.toDigits 10 n)
      = Nat.toDigits 10 n := by
    cases hcases : Nat.toDigits 10 n with
    | nil => rfl
    | cons first rest =>
        rw [stripPrefix_singleton, if_neg]
        · rfl
        · intro hplus
          have hfirst := hdigits first (by rw [hcases]; exact List.mem_cons_self)
          rw [← beq_iff_eq.mp hplus] at hfirst
          cases hfirst
  have hne : (Nat.toDigits 10 n).isEmpty = false := by
    rw [List.isEmpty_eq_false_iff]
    exact Nat.toDigits_ne_nil
  unfold parseU16
  simp only [htext, hplain, hne, List.all_eq_true.mpr hdigits,
    Nat.ofDigitChars_toDigits (by decide : 1 < 10) (by decide)]
  exact if_pos h

def printedPort {n : Nat} (h : n < 65536) : Port where
  text := (toString n).toList
  number := n
  reads := parseU16_toString h

/-!
# The parts of a URL
-/

theorem not_mem_of_delimiter (h : forall x, x ∈ xs -> isDelimiter x = false)
    (hc : isDelimiter c = true) : c ∉ xs := by
  intro hmem
  rw [h c hmem] at hc
  cases hc

def behindHost (port : Option Port) (path : Option (List Char)) : List Char :=
  portText port ++ pathText path

theorem behindHost_ne {path : Option (List Char)} :
    behindHost port path ≠ ':' :: '/' :: xs := by
  intro heq
  unfold behindHost at heq
  cases port with
  | none =>
      cases path with
      | none => cases heq
      | some path => cases heq
  | some port =>
      cases htext : port.text with
      | nil => exact port.text_ne_nil htext
      | cons first rest =>
          have hfirst := port.not_delimiter (htext ▸ List.mem_cons_self)
          simp only [portText, htext, List.cons_append, List.cons.injEq, true_and] at heq
          rw [heq.1] at hfirst
          cases hfirst

theorem head_behindHost {path : Option (List Char)} :
    (behindHost port path).takeWhile (fun c => !isDelimiter c) = [] := by
  unfold behindHost
  cases port with
  | none =>
      cases path with
      | none => rfl
      | some path => rfl
  | some port => rfl

theorem takeWhile_plain (h : forall c, c ∈ xs -> isDelimiter c = false) (rest : List Char) :
    (xs ++ rest).takeWhile (fun c => !isDelimiter c)
      = xs ++ rest.takeWhile fun c => !isDelimiter c := by
  apply List.takeWhile_append_of_pos
  intro c hc
  rw [h c hc]
  rfl

theorem no_scheme (host : UrlHost) (port : Option Port) (path : Option (List Char))
    {front : List Char} (hne : front ≠ []) (hfront : forall c, c ∈ front -> isDelimiter c = false) :
    stripPrefix (front ++ [':', '/', '/']) (host.text ++ behindHost port path) = none := by
  apply stripPrefix_eq_none
  intro rest heq
  have hfrontTaken : (front ++ [':', '/', '/'] ++ rest).takeWhile (fun c => !isDelimiter c)
      = front := by
    rw [List.append_assoc, takeWhile_plain hfront]
    exact List.append_nil _
  cases host with
  | name text hne hchars =>
      have htaken : (text ++ behindHost port path).takeWhile (fun c => !isDelimiter c)
          = text := by
        rw [takeWhile_plain hchars, head_behindHost, List.append_nil]
      have hsame : text = front := by
        rw [← htaken, ← hfrontTaken]
        exact congrArg _ heq
      rw [← hsame, List.append_assoc] at heq
      exact behindHost_ne (List.append_cancel_left heq)
  | ipv6 text hcolon hchars =>
      apply hne
      rw [← hfrontTaken, ← heq]
      rfl

structure NoScheme (rest : List Char) : Prop where
  http : stripPrefix "http://".toList rest = none
  https : stripPrefix "https://".toList rest = none

theorem plain_of_all (h : (xs.all fun c => !isDelimiter c) = true) :
    forall c, c ∈ xs -> isDelimiter c = false := by
  intro c hc
  simpa using List.all_eq_true.mp h c hc

theorem noScheme_behind (host : UrlHost) (port : Option Port) (path : Option (List Char)) :
    NoScheme (host.text ++ behindHost port path) where
  http := @no_scheme host port path ['h', 't', 't', 'p'] (by decide)
    (plain_of_all rfl)
  https := @no_scheme host port path ['h', 't', 't', 'p', 's'] (by decide)
    (plain_of_all rfl)

theorem noScheme_of_no_slash (h : '/' ∉ rest) : NoScheme rest := by
  have hnone : forall front : List Char, '/' ∈ front -> stripPrefix front rest = none := by
    intro front hfront
    apply stripPrefix_eq_none
    intro z heq
    apply h
    rw [heq]
    exact List.mem_append_left _ hfront
  exact ⟨hnone _ (by decide), hnone _ (by decide)⟩

theorem trimmed (h : NoScheme rest) (secure : Bool) (fuel : Nat) :
    trimStartMatches "https://".toList (fuel + 1)
      (trimStartMatches "http://".toList (fuel + 1) (scheme secure ++ '/' :: '/' :: rest))
        = rest := by
  cases secure with
  | false =>
      have hfront : scheme false ++ '/' :: '/' :: rest = "http://".toList ++ rest := rfl
      rw [hfront, trimStartMatches_once h.http, trimStartMatches_none h.https]
  | true =>
      have hfront : scheme true ++ '/' :: '/' :: rest = "https://".toList ++ rest := rfl
      have hnone : stripPrefix "http://".toList ("https://".toList ++ rest) = none := by
        apply stripPrefix_eq_none
        intro z heq
        have hlists : 'h' :: 't' :: 't' :: 'p' :: 's' :: ':' :: '/' :: '/' :: rest
            = 'h' :: 't' :: 't' :: 'p' :: ':' :: '/' :: '/' :: z := heq
        simp at hlists
      rw [hfront, trimStartMatches_none hnone, trimStartMatches_once h.https]

/-- The host at the front of an authority, as `hostOf` reads it. -/
def hostIn (host : List Char) : String :=
  match stripPrefix ['['] host with
  | some inner => String.ofList (upTo ']' inner)
  | none => String.ofList (upTo ':' host)

theorem hostOf_eq (url : String) :
    hostOf url = hostIn (upTo '/' (trimStartMatches "https://".toList url.length
      (trimStartMatches "http://".toList url.length url.toList))) :=
  rfl

theorem hostOf_url (h : NoScheme rest) (secure : Bool) :
    hostOf (String.ofList (scheme secure ++ '/' :: '/' :: rest)) = hostIn (upTo '/' rest) := by
  have hlength : exists fuel,
      (String.ofList (scheme secure ++ '/' :: '/' :: rest)).length = fuel + 1 := by
    refine ⟨(scheme secure).length + rest.length + 1, ?_⟩
    rw [String.length_ofList, List.length_append]
    simp only [List.length_cons]
    omega
  rcases hlength with ⟨fuel, hlength⟩
  have htext : (String.ofList (scheme secure ++ '/' :: '/' :: rest)).toList
      = scheme secure ++ '/' :: '/' :: rest := String.toList_ofList
  rw [hostOf_eq, hlength, htext, trimmed h]

theorem takeWhile_splitSlashes {q : Char -> Bool} (hq : q '/' = false) :
    forall rest : List Char, (splitSlashes rest).1.takeWhile q = rest.takeWhile q := by
  intro rest
  induction rest using splitSlashes.induct with
  | case1 rest => simp [splitSlashes, hq]
  | case2 c rest hc ih =>
      rw [splitSlashes]
      · simp only [List.takeWhile_cons, ih]
      · exact hc
  | case3 => rfl

theorem splitSlashes_url (secure : Bool) (rest : List Char) :
    (splitSlashes (scheme secure ++ '/' :: '/' :: rest)).2 = some rest := by
  cases secure with
  | false => rfl
  | true => rfl

/-- The port behind an authority's host, as `portOfUrl` reads it. -/
def portIn (authority : List Char) : Option Nat :=
  let afterHost :=
    match stripPrefix ['['] authority with
    | some rest =>
        match splitOnce ']' rest with
        | some (_, behind) => upTo ']' behind
        | none => []
    | none => authority
  (rsplitOnce ':' afterHost).bind fun parts => parseU16 parts.2

theorem portOfUrl_url (secure : Bool) (rest : List Char) :
    portOfUrl (String.ofList (scheme secure ++ '/' :: '/' :: rest))
      = portIn (rest.takeWhile fun c => !isAuthorityEnd c) := by
  unfold portOfUrl
  dsimp only
  rw [String.toList_ofList, splitSlashes_url]
  dsimp only
  rw [takeWhile_splitSlashes rfl]
  rfl

/-!
# A URL read back
-/

def UrlHost.address : UrlHost -> List Char
  | name text _ _ => text
  | ipv6 text _ _ => text

def authority (host : UrlHost) (port : Option Port) : List Char :=
  host.text ++ portText port

theorem not_mem_portText (hc : isDelimiter c = true) (hcolon : c ≠ ':') : c ∉ portText port := by
  cases port with
  | none => exact List.not_mem_nil
  | some port =>
      intro hmem
      cases List.mem_cons.mp hmem with
      | inl hhead => exact hcolon hhead
      | inr hrest => exact not_mem_of_delimiter (fun x hx => port.not_delimiter hx) hc hrest

theorem not_mem_authority (host : UrlHost) (port : Option Port) (hc : isAuthorityEnd c = true) :
    c ∉ authority host port := by
  have hdelimiter : isDelimiter c = true := by
    simp [isDelimiter, hc]
  have hplain : c ≠ ':' ∧ c ≠ '[' ∧ c ≠ ']' := by
    refine ⟨?_, ?_, ?_⟩ <;>
      · intro heq
        rw [heq] at hc
        cases hc
  intro hmem
  cases List.mem_append.mp hmem with
  | inl hhost =>
      cases host with
      | name text hne hchars => exact not_mem_of_delimiter hchars hdelimiter hhost
      | ipv6 text hcolon hchars =>
          simp only [UrlHost.text, List.mem_cons, List.mem_append, List.not_mem_nil,
            or_false] at hhost
          rcases hhost with hopen | htext | hclose
          · exact hplain.2.1 hopen
          · cases hchars c htext with
            | inl hcolon => exact hplain.1 hcolon
            | inr hfalse =>
                rw [hfalse] at hdelimiter
                cases hdelimiter
          · exact hplain.2.2 hclose
  | inr hport => exact not_mem_portText hdelimiter hplain.1 hport

theorem authority_taken (host : UrlHost) (port : Option Port) (path : Option (List Char)) :
    upTo '/' (authority host port ++ pathText path) = authority host port ∧
      (authority host port ++ pathText path).takeWhile (fun c => !isAuthorityEnd c)
        = authority host port := by
  have hslash := not_mem_authority host port (c := '/') rfl
  have hall : forall c, c ∈ authority host port -> (!isAuthorityEnd c) = true := by
    intro c hc
    cases hend : isAuthorityEnd c with
    | true => exact absurd hc (not_mem_authority host port hend)
    | false => rfl
  cases path with
  | none =>
      rw [pathText, List.append_nil]
      exact ⟨upTo_of_not_mem hslash, List.takeWhile_eq_self_iff.mpr hall⟩
  | some path =>
      constructor
      · exact upTo_append_cons hslash
      · rw [List.takeWhile_append_of_pos hall]
        exact List.append_nil _

theorem stripPrefix_name {text : List Char} (rest : List Char) (hne : text ≠ [])
    (hchars : forall c, c ∈ text -> isDelimiter c = false) :
    stripPrefix ['['] (text ++ rest) = none := by
  cases text with
  | nil => exact absurd rfl hne
  | cons first text =>
      rw [List.cons_append, stripPrefix_singleton, if_neg]
      intro hopen
      have hfirst := hchars first List.mem_cons_self
      rw [← beq_iff_eq.mp hopen] at hfirst
      cases hfirst

theorem not_close_ipv6 {text : List Char}
    (hchars : forall c, c ∈ text -> c = ':' ∨ isDelimiter c = false) : ']' ∉ text := by
  intro hmem
  cases hchars _ hmem with
  | inl hcolon => cases hcolon
  | inr hfalse => cases hfalse

theorem ipv6_authority (text : List Char) (port : Option Port) (rest : List Char) :
    '[' :: (text ++ [']']) ++ portText port ++ rest
      = '[' :: (text ++ ']' :: (portText port ++ rest)) := by
  simp

theorem hostIn_authority (host : UrlHost) (port : Option Port) :
    hostIn (authority host port) = String.ofList host.address := by
  cases host with
  | name text hne hchars =>
      have hcolon := not_mem_of_delimiter hchars (c := ':') rfl
      unfold hostIn authority
      rw [UrlHost.text, stripPrefix_name _ hne hchars]
      cases port with
      | none =>
          rw [portText, List.append_nil, upTo_of_not_mem hcolon]
          rfl
      | some port =>
          rw [portText, upTo_append_cons hcolon]
          rfl
  | ipv6 text hcolon hchars =>
      have hauthority := ipv6_authority text port []
      rw [List.append_nil, List.append_nil] at hauthority
      unfold hostIn authority
      rw [UrlHost.text, hauthority, stripPrefix_singleton, if_pos (beq_self_eq_true _)]
      dsimp only
      rw [upTo_append_cons (not_close_ipv6 hchars)]
      rfl

theorem portIn_authority (host : UrlHost) (port : Option Port) :
    portIn (authority host port) = port.map Port.number := by
  have hport : forall front : List Char, ':' ∉ front ->
      ((rsplitOnce ':' (front ++ portText port)).bind fun parts => parseU16 parts.2)
        = port.map Port.number := by
    intro front hfront
    cases port with
    | none =>
        rw [portText, List.append_nil, rsplitOnce_of_not_mem hfront]
        rfl
    | some port =>
        have hcolon := not_mem_of_delimiter (fun x hx => port.not_delimiter hx) (c := ':') rfl
        rw [portText, rsplitOnce_append_cons hcolon]
        exact port.reads
  cases host with
  | name text hne hchars =>
      unfold portIn authority
      rw [UrlHost.text, stripPrefix_name _ hne hchars]
      exact hport text (not_mem_of_delimiter hchars rfl)
  | ipv6 text hcolon hchars =>
      have hauthority := ipv6_authority text port []
      rw [List.append_nil, List.append_nil] at hauthority
      unfold portIn authority
      rw [UrlHost.text, hauthority, stripPrefix_singleton, if_pos (beq_self_eq_true _)]
      dsimp only
      rw [splitOnce_append_cons (not_close_ipv6 hchars)]
      dsimp only
      rw [upTo_of_not_mem (not_mem_portText rfl (by decide))]
      exact hport [] List.not_mem_nil

theorem text_eq (base : BaseUrl) :
    base.text = scheme base.secure ++
      '/' :: '/' :: (authority base.host base.port ++ pathText base.path) := by
  unfold BaseUrl.text authority
  rw [List.append_assoc]

theorem hostOf_text (base : BaseUrl) :
    hostOf (String.ofList base.text) = String.ofList base.host.address := by
  have hscheme : NoScheme (authority base.host base.port ++ pathText base.path) := by
    have hbehind := noScheme_behind base.host base.port base.path
    unfold behindHost at hbehind
    rwa [← List.append_assoc] at hbehind
  rw [text_eq, hostOf_url hscheme, (authority_taken _ _ _).1, hostIn_authority]

theorem portOfUrl_text (base : BaseUrl) :
    portOfUrl (String.ofList base.text) = base.port.map Port.number := by
  rw [text_eq, portOfUrl_url, (authority_taken _ _ _).2, portIn_authority]

/-!
# The port that is chosen
-/

theorem portOf_text (addr : ListenAddr) (fallback : Nat) :
    portOf (String.ofList addr.text) fallback = addr.port.number := by
  have hcolon := not_mem_of_delimiter (fun x hx => addr.port.not_delimiter hx) (c := ':') rfl
  have hreverse : addr.text.reverse = addr.port.text.reverse ++ ':' :: addr.host.reverse := by
    simp [ListenAddr.text]
  unfold portOf
  rw [String.toList_ofList, hreverse,
    upTo_append_cons (fun hmem => hcolon (List.mem_reverse.mp hmem)), List.reverse_reverse,
    addr.port.reads]
  rfl

theorem isEmpty_listenText (mtls : Option ListenAddr) :
    (String.ofList (listenText mtls)).isEmpty = mtls.isNone := by
  cases mtls with
  | none => rfl
  | some addr =>
      rw [Option.isNone_some, Bool.eq_false_iff]
      intro hempty
      have hnil := String.toList_eq_nil_iff.mpr (String.isEmpty_iff.mp hempty)
      rw [String.toList_ofList] at hnil
      exact List.append_ne_nil_of_right_ne_nil _ (List.cons_ne_nil _ _) hnil

theorem isPrefixOf_text (base : BaseUrl) :
    "https://".toList.isPrefixOf (String.ofList base.text).toList = base.secure := by
  have htext : (String.ofList base.text).toList = base.text := String.toList_ofList
  rw [htext, text_eq]
  cases base.secure with
  | false => rfl
  | true => rfl

theorem port_eq (base : BaseUrl) (https : ListenAddr) (mtls : Option ListenAddr) :
    (if !(String.ofList (listenText mtls)).isEmpty then
        portOf (String.ofList (listenText mtls)) 9443
      else if "https://".toList.isPrefixOf (String.ofList base.text).toList then
        (portOfUrl (String.ofList base.text)).getD 443
      else portOf (String.ofList https.text) 443) = chosenPort base https mtls := by
  rw [isEmpty_listenText, isPrefixOf_text, portOfUrl_text, portOf_text]
  cases mtls with
  | none => rfl
  | some addr => exact portOf_text addr 9443

theorem chosenPort_lt (base : BaseUrl) (https : ListenAddr) (mtls : Option ListenAddr) :
    chosenPort base https mtls < 65536 := by
  unfold chosenPort
  cases mtls with
  | some addr => exact addr.port.number_lt
  | none =>
      dsimp only
      split
      · cases base.port with
        | none => decide
        | some port => exact port.number_lt
      · exact https.port.number_lt

def explicitPort {n : Nat} (h : n < 65536) : Option Port :=
  if n = 443 then none else some (printedPort h)

theorem number_explicitPort (h : n < 65536) :
    ((explicitPort h).map Port.number).getD 443 = n := by
  unfold explicitPort
  split
  · rename_i heq
    exact heq.symm
  · rfl

theorem derived_eq (base : BaseUrl) (https : ListenAddr) (mtls : Option ListenAddr) :
    deriveAgentMtlsUrl (String.ofList base.text) (String.ofList https.text)
        (String.ofList (listenText mtls)) =
      String.ofList (scheme true ++ '/' :: '/' :: (base.host.address ++
        portText (explicitPort (chosenPort_lt base https mtls)))) := by
  unfold deriveAgentMtlsUrl
  dsimp only
  rw [port_eq, hostOf_text]
  apply String.toList_inj.mp
  unfold explicitPort
  split
  · simp only [portText, List.append_nil, String.toList_append, String.toList_ofList]
    rfl
  · simp only [String.toList_append, String.toList_ofList, List.append_assoc]
    rfl

/-!
# Where the derived URL points
-/

theorem points_of_name {base : BaseUrl} {https : ListenAddr} {mtls : Option ListenAddr}
    {text : List Char} {hne : text ≠ []}
    {hchars : forall c, c ∈ text -> isDelimiter c = false}
    (hhost : base.host = UrlHost.name text hne hchars) : PointsWhereItShould base https mtls := by
  have hderived : scheme true ++ '/' :: '/' :: (base.host.address ++
      portText (explicitPort (chosenPort_lt base https mtls)))
        = BaseUrl.text
            { secure := true, host := base.host,
              port := explicitPort (chosenPort_lt base https mtls), path := none } := by
    rw [text_eq, hhost, pathText, List.append_nil]
    rfl
  unfold PointsWhereItShould
  dsimp only
  rw [derived_eq, hderived, hostOf_text, hostOf_text, portOfUrl_text]
  exact ⟨rfl, number_explicitPort _⟩

/-- Without its brackets the literal is cut at its first colon. -/
theorem hostOf_bare {text : List Char} (hcolon : ':' ∈ text)
    (hchars : forall c, c ∈ text -> c = ':' ∨ isDelimiter c = false) (port : Option Port) :
    hostOf (String.ofList (scheme true ++ '/' :: '/' :: (text ++ portText port)))
      ≠ String.ofList text := by
  have hslash : '/' ∉ text ++ portText port := by
    intro hmem
    cases List.mem_append.mp hmem with
    | inl htext =>
        cases hchars _ htext with
        | inl hcolon => cases hcolon
        | inr hfalse => cases hfalse
    | inr hport => exact not_mem_portText rfl (by decide) hport
  have hopen : '[' ∉ text ++ portText port := by
    intro hmem
    cases List.mem_append.mp hmem with
    | inl htext =>
        cases hchars _ htext with
        | inl hcolon => cases hcolon
        | inr hfalse => cases hfalse
    | inr hport => exact not_mem_portText rfl (by decide) hport
  have hbare : stripPrefix ['['] (text ++ portText port) = none := by
    apply stripPrefix_eq_none
    intro rest heq
    apply hopen
    rw [heq]
    exact List.mem_append_left _ List.mem_cons_self
  rw [hostOf_url (noScheme_of_no_slash hslash), upTo_of_not_mem hslash]
  unfold hostIn
  rw [hbare]
  dsimp only
  intro heq
  have hcut : upTo ':' (text ++ portText port) = text := by
    have hlists := congrArg String.toList heq
    rwa [String.toList_ofList, String.toList_ofList] at hlists
  rw [← hcut] at hcolon
  exact not_mem_upTo ':' _ hcolon

/-- The derived URL points where it should just when the host is no IPv6 literal. -/
theorem agent_url_points_iff (base : BaseUrl) (https : ListenAddr) (mtls : Option ListenAddr) :
    PointsWhereItShould base https mtls <-> Not base.host.IsIpv6 := by
  cases hhost : base.host with
  | name text hne hchars =>
      constructor
      · intro _ h
        exact h
      · intro _
        exact points_of_name hhost
  | ipv6 text hcolon hchars =>
      constructor
      · intro hpoints
        have hsame := hpoints.1
        rw [derived_eq, hostOf_text, hhost] at hsame
        exact absurd hsame (hostOf_bare hcolon hchars _)
      · intro h
        exact absurd trivial h

/-- `https://[::1]:8443`. -/
def loopbackUrl : BaseUrl where
  secure := true
  host := UrlHost.ipv6 [':', ':', '1'] List.mem_cons_self (by
    intro c hc
    simp only [List.mem_cons, List.not_mem_nil, or_false] at hc
    rcases hc with hc | hc | hc
    · exact Or.inl hc
    · exact Or.inl hc
    · rw [hc]
      exact Or.inr rfl)
  port := some { text := ['8', '4', '4', '3'], number := 8443, reads := rfl }
  path := none

/-- `0.0.0.0:443`. -/
def sharedListener : ListenAddr where
  host := ['0', '.', '0', '.', '0', '.', '0']
  port := { text := ['4', '4', '3'], number := 443, reads := rfl }

/-- An agent URL that loses the brackets of its host names no host. -/
theorem ipv6_url_points_elsewhere :
    Not (forall (base : BaseUrl) (https : ListenAddr) (mtls : Option ListenAddr),
      PointsWhereItShould base https mtls) := by
  intro h
  have hsame := (h loopbackUrl sharedListener none).1
  rw [hostOf_text] at hsame
  have hderived : hostOf (deriveAgentMtlsUrl (String.ofList loopbackUrl.text)
      (String.ofList sharedListener.text) (String.ofList (listenText none))) = "" := by decide
  rw [hderived] at hsame
  exact absurd hsame (by decide)

end Runtime
end FleetServer
