import FleetServer.Hosts.ConfigApi
import FleetServer.Web.Crypto

/-!
# What one side seals, the other opens

The browser reads a key text with `atob`, the server with a strict decoder.
They agree on every text that both of them read, and a text that only one of
them reads makes bundles the other cannot open.
-/

namespace FleetServer
namespace Web

open FleetServer.Core
open Core.EncBundle
open Core.Base64

variable {digits : List Char} {t : String} {key : BundleKey} {p : Char -> Bool} {c : Char}

/-!
# Key texts
-/

def keyDigits : Nat := 43

def notBlank (c : Char) : Bool :=
  !isAsciiWhitespace c

/-- What the browser takes for a key: 43 digits, with blanks anywhere, and with or
without the padding. -/
def browserReads (t : String) : Bool :=
  let data := (Web.trim t).toList.filter notBlank
  let digits := if data.getLast? == some padding then data.dropLast else data
  digits.length == keyDigits && digits.all isDigit

/-- What the server takes for a key: 43 digits, the last of them without bits to
spare, and the padding. -/
def serverReads (t : String) : Bool :=
  let data := (Core.trim t).toList
  let digits := data.dropLast
  data.getLast? == some padding && digits.length == keyDigits && digits.all isDigit &&
    (digits.getLast?.bind digitValue).all fun n => n % 4 == 0

theorem leftover_of_length :
    forall {values : List Nat}, values.length % 4 = 3 ->
      leftover values = (values.getLast?.getD 0) % 4
  | _ :: _ :: _ :: d :: rest, h => by
      have hrest : rest.length % 4 = 3 := by
        simp only [List.length_cons] at h
        omega
      unfold leftover
      rw [leftover_of_length hrest]
      cases rest with
      | nil => cases hrest
      | cons e rest => simp only [List.getLast?_cons_cons]
  | [_, _, _], _ => rfl
  | [_, _], h => by cases h
  | [_], h => by cases h
  | [], h => by cases h

theorem getLast_mapM :
    forall {text : List Char} {values : List Nat}, text.mapM digitValue = some values ->
      text.getLast?.bind digitValue = values.getLast?
  | [], values, h => by
      cases h
      rfl
  | [c], values, h => by
      rw [List.mapM_cons] at h
      rcases Option.bind_eq_some_iff.mp h with ⟨n, hn, hvalues⟩
      cases hvalues
      exact hn
  | c :: d :: rest, values, h => by
      rw [List.mapM_cons] at h
      rcases Option.bind_eq_some_iff.mp h with ⟨n, hn, htail⟩
      rcases Option.bind_eq_some_iff.mp htail with ⟨more, hmore, hvalues⟩
      cases hvalues
      have hrest := getLast_mapM hmore
      rw [List.getLast?_cons_cons, hrest]
      cases more with
      | nil =>
          have hlength := (mapM_digitValue_eq_some hmore).1
          cases hlength
      | cons m more => rw [List.getLast?_cons_cons]

theorem length_of_bytes {values : List Nat} (hbytes : (bytesOf values).length = keyLen) :
    values.length = keyDigits := by
  rw [length_bytesOf] at hbytes
  unfold keyLen at hbytes
  unfold keyDigits
  omega

theorem bytes_of_length {values : List Nat} (h : values.length = keyDigits) :
    (bytesOf values).length = keyLen := by
  rw [length_bytesOf, h]
  rfl

theorem browser_data {data : List Char} (hdigits : forall c, c ∈ digits -> isDigit c = true)
    (h : data = digits ∨ data = digits ++ [padding]) :
    (if data.getLast? == some padding then data.dropLast else data) = digits := by
  rcases h with rfl | rfl
  · rw [if_neg]
    intro hlast
    have hmem := List.mem_of_getLast? (beq_iff_eq.mp hlast)
    have hpad := hdigits _ hmem
    rw [isDigit_padding] at hpad
    cases hpad
  · rw [List.getLast?_concat, beq_self_eq_true, if_pos rfl, List.dropLast_concat]

theorem browser_data_cases (data : List Char) :
    data = (if data.getLast? == some padding then data.dropLast else data) ∨
      data = (if data.getLast? == some padding then data.dropLast else data) ++ [padding] := by
  split
  · rename_i hlast
    have hlast := beq_iff_eq.mp hlast
    rcases List.getLast?_eq_some_iff.mp hlast with ⟨front, rfl⟩
    rw [List.dropLast_concat]
    exact Or.inr rfl
  · exact Or.inl rfl

theorem rawKey_eq_ok {raw : Bytes} :
    rawKey t = Except.ok raw <->
      exists digits values,
        ((Web.trim t).toList.filter notBlank = digits ∨
          (Web.trim t).toList.filter notBlank = digits ++ [padding]) ∧
        digits.length = keyDigits ∧ digits.mapM digitValue = some values ∧
          bytesOf values = raw := by
  have hread : rawKey t = Except.ok raw <->
      decodeForgiving (Web.trim t).toList = some raw ∧ raw.length = keyLen := by
    unfold rawKey fromB64
    cases decodeForgiving (Web.trim t).toList with
    | none =>
        constructor
        · intro h
          cases h
        · intro h
          cases h.1
    | some bytes =>
        simp only
        constructor
        · intro h
          split at h
          · cases h
          · rename_i hlength
            cases h
            exact ⟨rfl, not_not.mp hlength⟩
        · rintro ⟨hbytes, hlength⟩
          cases hbytes
          exact if_neg (not_not.mpr hlength)
  rw [hread]
  constructor
  · rintro ⟨hdecode, hlength⟩
    rcases decodeForgiving_eq_some.mp hdecode with ⟨digits, values, hdata, _, hvalues, hbytes⟩
    have hsame := (mapM_digitValue_eq_some hvalues).1
    have hcount : digits.length = keyDigits := by
      rw [← hsame]
      exact length_of_bytes (hbytes ▸ hlength)
    rw [hcount] at hdata
    exact ⟨digits, values, hdata, hcount, hvalues, hbytes⟩
  · rintro ⟨digits, values, hdata, hcount, hvalues, hbytes⟩
    have hsame := (mapM_digitValue_eq_some hvalues).1
    constructor
    · apply decodeForgiving_eq_some.mpr
      refine ⟨digits, values, ?_, ?_, hvalues, hbytes⟩
      · rw [hcount]
        exact hdata
      · rw [hcount]
        decide
    · rw [← hbytes]
      exact bytes_of_length (hsame.trans hcount)

theorem browserReads_iff :
    browserReads t = true <-> exists raw, rawKey t = Except.ok raw := by
  unfold browserReads
  simp only [Bool.and_eq_true, beq_iff_eq, List.all_eq_true]
  constructor
  · rintro ⟨hcount, hdigits⟩
    rcases mapM_digitValue_isSome hdigits with ⟨values, hvalues⟩
    have hcases := browser_data_cases ((Web.trim t).toList.filter notBlank)
    simp only [beq_iff_eq] at hcases
    exact ⟨bytesOf values, rawKey_eq_ok.mpr ⟨_, values, hcases, hcount, hvalues, rfl⟩⟩
  · rintro ⟨raw, hraw⟩
    rcases rawKey_eq_ok.mp hraw with ⟨digits, values, hdata, hcount, hvalues, _⟩
    have hdigits := (mapM_digitValue_eq_some hvalues).2
    have hsame := browser_data hdigits hdata
    simp only [beq_iff_eq] at hsame
    rw [hsame]
    exact ⟨hcount, hdigits⟩

variable {prims : Primitives}

theorem fromB64_eq_ok :
    BundleKey.fromB64 prims t = Except.ok key <->
      exists digits values, (Core.trim t).toList = digits ++ [padding] ∧
        digits.length = keyDigits ∧ digits.mapM digitValue = some values ∧
          leftover values = 0 ∧ bytesOf values = key.bytes := by
  have hread : BundleKey.fromB64 prims t = Except.ok key <->
      decodeStandard (Core.trim t).toList = some key.bytes := by
    unfold BundleKey.fromB64
    cases decodeStandard (Core.trim t).toList with
    | none =>
        constructor
        · intro h
          cases h
        · intro h
          cases h
    | some bytes =>
        simp only
        constructor
        · intro h
          split at h
          · cases h
            rfl
          · cases h
        · intro h
          cases h
          rw [dif_pos key.length_eq]
  rw [hread, decodeStandard_eq_some]
  constructor
  · rintro ⟨digits, values, htext, _, hvalues, hleft, hbytes⟩
    have hsame := (mapM_digitValue_eq_some hvalues).1
    have hcount : digits.length = keyDigits := by
      rw [← hsame]
      exact length_of_bytes (hbytes ▸ key.length_eq)
    rw [hcount] at htext
    exact ⟨digits, values, htext, hcount, hvalues, hleft, hbytes⟩
  · rintro ⟨digits, values, htext, hcount, hvalues, hleft, hbytes⟩
    refine ⟨digits, values, ?_, ?_, hvalues, hleft, hbytes⟩
    · rw [hcount]
      exact htext
    · rw [hcount]
      decide

theorem serverReads_iff :
    serverReads t = true <-> exists key, BundleKey.fromB64 prims t = Except.ok key := by
  unfold serverReads
  simp only [Bool.and_eq_true, beq_iff_eq, List.all_eq_true]
  constructor
  · rintro ⟨⟨⟨hlast, hcount⟩, hdigits⟩, hspare⟩
    rcases List.getLast?_eq_some_iff.mp hlast with ⟨digits, htext⟩
    rw [htext, List.dropLast_concat] at hcount hdigits hspare
    rcases mapM_digitValue_isSome hdigits with ⟨values, hvalues⟩
    have hlength := (mapM_digitValue_eq_some hvalues).1
    rw [hcount] at hlength
    have hleft : leftover values = 0 := by
      rw [leftover_of_length (by rw [hlength]; rfl)]
      rw [getLast_mapM hvalues] at hspare
      cases hvalue : values.getLast? with
      | none => rfl
      | some n =>
          rw [hvalue] at hspare
          exact beq_iff_eq.mp hspare
    exact ⟨⟨bytesOf values, bytes_of_length hlength⟩,
      fromB64_eq_ok.mpr ⟨digits, values, htext, hcount, hvalues, hleft, rfl⟩⟩
  · rintro ⟨key, hkey⟩
    rcases fromB64_eq_ok.mp hkey with ⟨digits, values, htext, hcount, hvalues, hleft, _⟩
    have hlength := (mapM_digitValue_eq_some hvalues).1
    rw [hcount] at hlength
    rw [leftover_of_length (by rw [hlength]; rfl)] at hleft
    rw [htext, List.dropLast_concat, List.getLast?_concat, getLast_mapM hvalues]
    refine ⟨⟨⟨rfl, hcount⟩, (mapM_digitValue_eq_some hvalues).2⟩, ?_⟩
    cases hvalue : values.getLast? with
    | none => rfl
    | some n =>
        rw [hvalue] at hleft
        exact beq_iff_eq.mpr hleft

/-!
# Both read the same digits
-/

theorem filter_dropWhile {q : Char -> Bool} (h : forall c, p c = true -> q c = false)
    (xs : List Char) : (xs.dropWhile p).filter q = xs.filter q := by
  induction xs with
  | nil => rfl
  | cons c rest ih =>
      cases hc : p c with
      | true => rw [List.dropWhile_cons, hc, if_pos rfl, ih, List.filter_cons, h c hc]; rfl
      | false => rw [List.dropWhile_cons, hc]; rfl

theorem filter_trimmed {q : Char -> Bool} (h : forall c, p c = true -> q c = false) (xs : List Char)
    :
    (((xs.dropWhile p).reverse.dropWhile p).reverse).filter q = xs.filter q := by
  rw [List.filter_reverse, filter_dropWhile h, List.filter_reverse, List.reverse_reverse,
    filter_dropWhile h]

theorem digit_range (h : isDigit c = true) : 43 ≤ c.toNat ∧ c.toNat ≤ 122 := by
  unfold isDigit digitValue at h
  have hle : forall a b : Char, decide (a ≤ b) = true -> a.toNat ≤ b.toNat := by
    intro a b hab
    exact of_decide_eq_true hab
  split at h
  · rename_i hrange
    have hrange := Bool.and_eq_true_iff.mp hrange
    have hlow := hle _ _ hrange.1
    have hhigh := hle _ _ hrange.2
    have ha : ('A' : Char).toNat = 65 := rfl
    have hz : ('Z' : Char).toNat = 90 := rfl
    omega
  · split at h
    · rename_i hrange
      have hrange := Bool.and_eq_true_iff.mp hrange
      have hlow := hle _ _ hrange.1
      have hhigh := hle _ _ hrange.2
      have ha : ('a' : Char).toNat = 97 := rfl
      have hz : ('z' : Char).toNat = 122 := rfl
      omega
    · split at h
      · rename_i hrange
        have hrange := Bool.and_eq_true_iff.mp hrange
        have hlow := hle _ _ hrange.1
        have hhigh := hle _ _ hrange.2
        have ha : ('0' : Char).toNat = 48 := rfl
        have hz : ('9' : Char).toNat = 57 := rfl
        omega
      · split at h
        · rename_i hplus
          rw [beq_iff_eq.mp hplus]
          decide
        · split at h
          · rename_i hslash
            rw [beq_iff_eq.mp hslash]
            decide
          · cases h

theorem not_digit_of_whitespace (h : Core.isWhitespace c = true) :
    isDigit c = false := by
  by_contra hdigit
  have hrange := digit_range (Bool.eq_true_of_not_eq_false hdigit)
  unfold Core.isWhitespace at h
  simp only [Bool.or_eq_true, Bool.and_eq_true, decide_eq_true_eq, beq_iff_eq] at h
  omega

theorem not_digit_of_space (h : isSpace c = true) : isDigit c = false := by
  by_contra hdigit
  have hrange := digit_range (Bool.eq_true_of_not_eq_false hdigit)
  unfold isSpace at h
  simp only [Bool.or_eq_true, Bool.and_eq_true, decide_eq_true_eq, beq_iff_eq] at h
  omega

theorem notBlank_of_digit (h : isDigit c = true) : notBlank c = true := by
  by_contra hblank
  have hrange := digit_range h
  unfold notBlank at hblank
  rw [Bool.not_eq_true', Bool.not_eq_false] at hblank
  unfold isAsciiWhitespace at hblank
  simp only [Bool.or_eq_true, beq_iff_eq] at hblank
  rcases hblank with (((hc | hc) | hc) | hc) | hc <;> (rw [hc] at hrange; revert hrange; decide)

theorem filter_digits (h : forall c, c ∈ digits -> isDigit c = true) :
    (digits ++ [padding]).filter isDigit = digits := by
  rw [List.filter_append, List.filter_eq_self.mpr h]
  exact List.append_nil _

theorem browser_digits (hdigits : forall c, c ∈ digits -> isDigit c = true)
    (h : (Web.trim t).toList.filter notBlank = digits ∨
      (Web.trim t).toList.filter notBlank = digits ++ [padding]) :
    digits = t.toList.filter isDigit := by
  have hdata : ((Web.trim t).toList.filter notBlank).filter isDigit = digits := by
    rcases h with h | h
    · rw [h, List.filter_eq_self.mpr hdigits]
    · rw [h, filter_digits hdigits]
  have hboth : forall c, (isDigit c && notBlank c) = isDigit c := by
    intro c
    cases hc : isDigit c with
    | true => rw [notBlank_of_digit hc]; rfl
    | false => rfl
  rw [← hdata, List.filter_filter]
  simp only [hboth]
  unfold Web.trim
  rw [String.toList_ofList]
  exact filter_trimmed (fun c => not_digit_of_space) _

theorem server_digits (hdigits : forall c, c ∈ digits -> isDigit c = true)
    (h : (Core.trim t).toList = digits ++ [padding]) :
    digits = t.toList.filter isDigit := by
  have hdata : (Core.trim t).toList.filter isDigit = digits := by
    rw [h, filter_digits hdigits]
  rw [← hdata]
  unfold Core.trim
  rw [String.toList_ofList]
  exact filter_trimmed (fun c => not_digit_of_whitespace) _

theorem same_bytes {raw : Bytes} (hbrowser : rawKey t = Except.ok raw)
    (hserver : BundleKey.fromB64 prims t = Except.ok key) :
    raw = key.bytes := by
  rcases rawKey_eq_ok.mp hbrowser with ⟨digits, values, hdata, _, hvalues, hraw⟩
  rcases fromB64_eq_ok.mp hserver with ⟨digits', values', htext, _, hvalues', _, hkey⟩
  have hsame := browser_digits (mapM_digitValue_eq_some hvalues).2 hdata
  have hsame' := server_digits (mapM_digitValue_eq_some hvalues').2 htext
  rw [hsame] at hvalues
  rw [hsame', hvalues] at hvalues'
  cases hvalues'
  rw [← hraw, ← hkey]

/-!
# Agreement
-/

/-- A bundle opens on neither side except with the key and under the name and
version it was sealed with. -/
structure OpensOnlyAs (prims : Primitives) (raw : Bytes) (name version : String)
    (sealed_ : Bytes) : Prop where
  server : forall (key : BundleKey) (name' version' : String) (text : Bytes),
    key.decrypt prims name' version' sealed_ = Except.ok text ->
      key.bytes = raw ∧ name' = name ∧ version' = version
  browser : forall (t name' version' : String) (text : Bytes),
    decryptBundle prims t name' version' sealed_ = Except.ok text ->
      rawKey t = Except.ok raw ∧ name' = name ∧ version' = version

/-- What either side seals with the key in a text, the other opens with it, and
nobody opens otherwise. -/
structure Agree (prims : Primitives) (t : String) : Prop where
  browserSeals : forall (name version : String) (plaintext : Bytes) (nonce : Nonce)
    (sealed_ : Bytes), Hosts.validBundleToken name = true ->
      Hosts.validBundleToken version = true ->
        encryptBundle prims t name version plaintext nonce = Except.ok sealed_ ->
          exists key, BundleKey.fromB64 prims t = Except.ok key ∧
            keyFingerprintHex prims t = Except.ok (key.fingerprintHex prims) ∧
            key.decrypt prims name version sealed_ = Except.ok plaintext ∧
            OpensOnlyAs prims key.bytes name version sealed_
  serverSeals : forall (key : BundleKey) (name version : String) (plaintext : Bytes)
    (nonce : Nonce) (sealed_ : Bytes), Hosts.validBundleToken name = true ->
      Hosts.validBundleToken version = true -> BundleKey.fromB64 prims t = Except.ok key ->
        key.encrypt prims name version plaintext nonce = some sealed_ ->
          keyFingerprintHex prims t = Except.ok (key.fingerprintHex prims) ∧
            decryptBundle prims t name version sealed_ = Except.ok plaintext ∧
            OpensOnlyAs prims key.bytes name version sealed_

theorem token_range (h : Hosts.isTokenChar c = true) :
    0 < c.toNat ∧ c.toNat < 128 := by
  have hle : forall a b : Char, decide (a ≤ b) = true -> a.toNat ≤ b.toNat := by
    intro a b hab
    exact of_decide_eq_true hab
  have hrange : forall a b : Char, 0 < a.toNat -> b.toNat < 128 ->
      (decide (a ≤ c) && decide (c ≤ b)) = true -> 0 < c.toNat ∧ c.toNat < 128 := by
    intro a b ha hb hc
    have hc := Bool.and_eq_true_iff.mp hc
    have hlow := hle _ _ hc.1
    have hhigh := hle _ _ hc.2
    omega
  unfold Hosts.isTokenChar isAsciiAlphanumeric isAsciiLowercase isAsciiDigit at h
  simp only [Bool.or_eq_true] at h
  rcases h with ((((h | h) | h) | h) | h) | h
  · exact hrange _ _ (by decide) (by decide) h
  · exact hrange _ _ (by decide) (by decide) h
  · exact hrange _ _ (by decide) (by decide) h
  · rw [beq_iff_eq.mp h]
    decide
  · rw [beq_iff_eq.mp h]
    decide
  · rw [beq_iff_eq.mp h]
    decide

theorem zero_not_mem_token {s : String} (h : Hosts.validBundleToken s = true) :
    (0 : UInt8) ∉ utf8 s := by
  apply zero_not_mem_utf8
  unfold Hosts.validBundleToken at h
  have hchars := List.all_eq_true.mp (Bool.and_eq_true_iff.mp h).2
  intro c hc
  exact token_range (hchars c hc)

theorem opens_only_as (hprims : Ideal prims) {own : BundleKey} {plaintext ct : Bytes}
    {name version : String} {nonce : Nonce} (hname : Hosts.validBundleToken name = true)
    (hversion : Hosts.validBundleToken version = true)
    (hct : prims.encrypt own.bytes nonce.bytes (EncBundle.aadFor name version) plaintext
      = some ct) :
    OpensOnlyAs prims own.bytes name version
      (envelope ((prims.sha256 own.bytes).take fingerprintLen) nonce.bytes ct) := by
  have hfp := length_fingerprint hprims own.bytes
  have hzero := zero_not_mem_token hname
  have hzero' := zero_not_mem_token hversion
  constructor
  · intro key name' version' text h
    have hsame := decrypt_envelope hprims hfp hct h
    exact ⟨congrArg BundleKey.bytes hsame.1, aadFor_injective hzero hzero' hsame.2.symm⟩
  · intro t name' version' text h
    have hsame := decryptBundle_envelope hprims hfp hct h
    exact ⟨hsame.1, aadFor_injective hzero hzero' hsame.2.symm⟩

theorem fingerprint_of_key (h : rawKey t = Except.ok key.bytes) :
    keyFingerprintHex prims t = Except.ok (key.fingerprintHex prims) := by
  rw [fingerprint_ok h, toHex_eq]
  rfl

theorem agree_of_reads (hprims : Ideal prims) (h : browserReads t = serverReads t) :
    Agree prims t := by
  constructor
  · intro name version plaintext nonce sealed_ hname hversion hsealed
    rcases encryptBundle_eq_ok hsealed with ⟨raw, ct, hraw, hct, rfl⟩
    have hreads := browserReads_iff.mpr ⟨raw, hraw⟩
    rw [h] at hreads
    have hkeys : exists key, BundleKey.fromB64 prims t = Except.ok key :=
      serverReads_iff.mp hreads
    rcases hkeys with ⟨key, hkey⟩
    have hsame := same_bytes hraw hkey
    rw [hsame] at hraw hct ⊢
    exact ⟨key, hkey, fingerprint_of_key hraw, decrypt_own hprims hct,
      opens_only_as hprims hname hversion hct⟩
  · intro key name version plaintext nonce sealed_ hname hversion hkey hsealed
    rcases Option.map_eq_some_iff.mp hsealed with ⟨ct, hct, rfl⟩
    have hreads := serverReads_iff.mpr ⟨key, hkey⟩
    rw [← h] at hreads
    rcases browserReads_iff.mp hreads with ⟨raw, hraw⟩
    rw [same_bytes hraw hkey] at hraw
    exact ⟨fingerprint_of_key hraw, decryptBundle_own hprims hraw hct,
      opens_only_as hprims hname hversion hct⟩

def zeroNonce : Nonce where
  bytes := List.replicate nonceLen 0
  length_eq := List.length_replicate

theorem reads_of_agree (hprims : Ideal prims) (h : Agree prims t) :
    browserReads t = serverReads t := by
  apply Bool.eq_iff_iff.mpr
  have htoken : Hosts.validBundleToken "a" = true := by decide
  constructor
  · intro hreads
    rcases browserReads_iff.mp hreads with ⟨raw, hraw⟩
    rcases key_of_rawKey hraw with ⟨own, rfl⟩
    rcases hprims.seals own zeroNonce (aadFor "a" "a") with ⟨ct, hct⟩
    have hsealed : encryptBundle prims t "a" "a" [] zeroNonce = Except.ok
        (magic ++ (prims.sha256 own.bytes).take fingerprintLen ++ zeroNonce.bytes ++ ct) := by
      unfold encryptBundle
      rw [hraw]
      simp only [hct]
    rcases h.browserSeals _ _ _ _ _ htoken htoken hsealed with ⟨key, hkey, _⟩
    exact serverReads_iff.mpr ⟨key, hkey⟩
  · intro hreads
    have hkeys : exists key, BundleKey.fromB64 prims t = Except.ok key :=
      serverReads_iff.mp hreads
    rcases hkeys with ⟨key, hkey⟩
    rcases hprims.seals key zeroNonce (EncBundle.aadFor "a" "a") with ⟨ct, hct⟩
    have hsealed : key.encrypt prims "a" "a" [] zeroNonce
        = some (magic ++ key.fingerprint prims ++ zeroNonce.bytes ++ ct) := by
      unfold BundleKey.encrypt
      rw [hct]
      rfl
    have hopened := (h.serverSeals _ _ _ _ _ _ htoken htoken hkey hsealed).2.1
    cases hraw : rawKey t with
    | ok raw => exact browserReads_iff.mpr ⟨raw, hraw⟩
    | error e =>
        unfold decryptBundle at hopened
        rw [hraw] at hopened
        cases hopened

/-!
# Generated keys
-/

theorem trimmed_eq {xs : List Char} (h : forall c, c ∈ xs -> p c = false) :
    ((xs.dropWhile p).reverse.dropWhile p).reverse = xs := by
  have hsame : forall {ys : List Char}, (forall c, c ∈ ys -> p c = false) ->
      ys.dropWhile p = ys := by
    intro ys hys
    cases ys with
    | nil => rfl
    | cons c rest =>
        rw [List.dropWhile_cons, hys c List.mem_cons_self]
        rfl
  have hreverse : forall c, c ∈ xs.reverse -> p c = false := fun c hc =>
    h c (List.mem_reverse.mp hc)
  rw [hsame h, hsame hreverse, List.reverse_reverse]

theorem encode_char {bytes : Bytes} (h : c ∈ encode bytes) :
    isSpace c = false ∧ Core.isWhitespace c = false := by
  rcases List.mem_append.mp h with h | h
  · rcases List.mem_map.mp h with ⟨n, hn, rfl⟩
    have hdigit := isDigit_of_digitValue (digitValue_digitChar ⟨n, digitsOf_lt bytes n hn⟩)
    constructor
    · by_contra hspace
      have hnot := not_digit_of_space (Bool.eq_true_of_not_eq_false hspace)
      rw [hdigit] at hnot
      cases hnot
    · by_contra hspace
      have hnot := not_digit_of_whitespace (Bool.eq_true_of_not_eq_false hspace)
      rw [hdigit] at hnot
      cases hnot
  · rw [List.eq_of_mem_replicate h]
    decide

theorem trim_toB64 (key : BundleKey) :
    (Web.trim key.toB64).toList = encode key.bytes ∧
      (Core.trim key.toB64).toList = encode key.bytes := by
  unfold Web.trim Core.trim BundleKey.toB64
  simp only [String.toList_ofList]
  exact ⟨trimmed_eq fun c hc => (encode_char hc).1, trimmed_eq fun c hc => (encode_char hc).2⟩

theorem rawKey_toB64 (key : BundleKey) : rawKey key.toB64 = Except.ok key.bytes := by
  unfold rawKey fromB64
  rw [(trim_toB64 key).1, decodeForgiving_encode]
  exact if_neg (not_not.mpr key.length_eq)

theorem fromB64_toB64 (prims : Primitives) (key : BundleKey) :
    BundleKey.fromB64 prims key.toB64 = Except.ok key := by
  unfold BundleKey.fromB64
  rw [(trim_toB64 key).2, decodeStandard_encode]
  exact dif_pos key.length_eq

theorem agree_generated (hprims : Ideal prims) (random : BundleKey) :
    Agree prims (generateKeyB64 random) ∧ Agree prims random.toB64 := by
  have hsame : generateKeyB64 random = random.toB64 := rfl
  have hbrowser := browserReads_iff.mpr ⟨_, rawKey_toB64 random⟩
  have hserver := serverReads_iff.mpr ⟨_, fromB64_toB64 prims random⟩
  have hreads : browserReads random.toB64 = serverReads random.toB64 := by
    rw [hbrowser, hserver]
  rw [hsame, and_self]
  exact agree_of_reads hprims hreads

/-!
# The exact condition
-/

/-- The two sides agree on a key text exactly when it is a key to both, or to
neither. -/
theorem browser_and_server_agree_iff (hprims : Ideal prims) (t : String) :
    Agree prims t <-> browserReads t = serverReads t :=
  ⟨reads_of_agree hprims, agree_of_reads hprims⟩

/-- A text behind its length. -/
def field (bytes : Bytes) : Bytes :=
  List.replicate bytes.length 1 ++ 0 :: bytes

/-- Primitives to run the model with: a ciphertext carries what it is bound to. -/
def plainPrims : Primitives where
  sha256 := fun bytes => (bytes ++ List.replicate 32 0).take 32
  encrypt := fun key _ aad text =>
    some (List.replicate tagLen 0 ++ field key ++ field aad ++ text)
  decrypt := fun key _ aad ct =>
    let bound := List.replicate tagLen 0 ++ field key ++ field aad
    if bound.isPrefixOf ct then some (ct.drop bound.length) else none
  decodeError := fun _ => "Invalid padding"

theorem field_append_inj {xs ys us vs : Bytes} (h : field xs ++ us = field ys ++ vs) :
    xs = ys ∧ us = vs := by
  have hlength : forall {m n : Nat} {r s : Bytes},
      List.replicate m (1 : UInt8) ++ 0 :: r = List.replicate n 1 ++ 0 :: s ->
        m = n ∧ r = s := by
    intro m
    induction m with
    | zero =>
        intro n r s heq
        cases n with
        | zero => exact ⟨rfl, (List.cons.inj heq).2⟩
        | succ n => cases (List.cons.inj heq).1
    | succ m ih =>
        intro n r s heq
        cases n with
        | zero => cases (List.cons.inj heq).1
        | succ n =>
            rcases ih (List.cons.inj heq).2 with ⟨hm, hr⟩
            exact ⟨congrArg Nat.succ hm, hr⟩
  unfold field at h
  rw [List.append_assoc, List.append_assoc] at h
  rcases hlength h with ⟨hsame, htail⟩
  exact List.append_inj htail hsame

theorem ideal_plainPrims : Ideal plainPrims where
  digest := by
    intro bytes
    show ((bytes ++ List.replicate 32 0).take 32).length = 32
    rw [List.length_take, List.length_append, List.length_replicate]
    omega
  seals := fun key nonce aad => ⟨_, rfl⟩
  tag := by
    intro key nonce aad text ct h
    cases h
    simp only [List.length_append, List.length_replicate]
    omega
  opens := by
    intro key nonce aad text ct h
    cases h
    show (if List.isPrefixOf _ _ = true then _ else _) = _
    rw [if_pos (List.isPrefixOf_iff_prefix.mpr (List.prefix_append _ _)), List.drop_left]
  binds := by
    intro key nonce aad text ct key' nonce' aad' text' hct hopened
    cases hct
    unfold plainPrims at hopened
    simp only at hopened
    split at hopened
    · rename_i hbound
      rcases List.isPrefixOf_iff_prefix.mp hbound with ⟨rest, hrest⟩
      simp only [List.append_assoc] at hrest
      have hfields := List.append_cancel_left hrest
      rcases field_append_inj hfields with ⟨hkey, hmore⟩
      exact ⟨BundleKey.ext hkey, (field_append_inj hmore).1⟩
    · cases hopened

/-- A key text of zero bytes, without the padding it should end in. -/
def unpaddedKey : String :=
  "AAAAAAAAAAAAAAAAAAAAAAAAAAAAAAAAAAAAAAAAAAA"

theorem browser_and_server_agree_padded : Agree plainPrims (unpaddedKey ++ "=") :=
  (browser_and_server_agree_iff ideal_plainPrims _).mpr (by decide +kernel)

/-- The browser seals with it, and the server has no such key. -/
theorem unpadded_key_disagrees : Not (Agree plainPrims unpaddedKey) := by
  intro h
  have hreads := reads_of_agree ideal_plainPrims h
  revert hreads
  decide +kernel

end Web
end FleetServer
