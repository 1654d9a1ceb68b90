import FleetServer.Bundles.BundleConfig
import FleetServer.Core.Split
import FleetServer.Web.ScriptPaths

/-!
# Bundle archives in the browser

`bundles/bundlezip.ts`: the archive of a bundle taken apart where the plaintext is.
-/

namespace FleetServer
namespace Web

open FleetServer.Core

/-- What the page takes from its libraries. -/
structure Platform where
  unzipSync : Bytes -> Except String (List (String × Bytes))
  /-- `new TextDecoder().decode` -/
  decode : Bytes -> String
  /-- `JSON.parse` -/
  parseJson : String -> Except String Json
  /-- `a.localeCompare(b) <= 0` -/
  localeLe : String -> String -> Bool

variable (platform : Platform)

/-!
# The manifest
-/

/-- Where `^` and `$` match, besides the ends of the text. -/
def isLineEnd (c : Char) : Bool :=
  c == '\n' || c == '\r' || c.toNat == 0x2028 || c.toNat == 0x2029

/-- `\s*$` -/
def blankToLineEnd (text : List Char) : Bool :=
  (text.dropWhile isSpace).isEmpty || (text.takeWhile isSpace).any isLineEnd

/-- `([A-Za-z0-9._-]{1,128})"\s*$` -/
def matchToken (text : List Char) : Option (List Char) :=
  let token := text.takeWhile isPathChar
  if token.isEmpty || decide (128 < token.length) then none
  else
    match text.dropWhile isPathChar with
    | '"' :: rest => if blankToLineEnd rest then some token else none
    | _ => none

/-- `\s*template\s*=\s*"([A-Za-z0-9._-]{1,128})"\s*$` -/
def matchTemplate (text : List Char) : Option (List Char) := do
  let rest ← Bundles.stripFront "template".toList (text.dropWhile isSpace)
  let rest ← Bundles.stripFront ['='] (rest.dropWhile isSpace)
  let rest ← Bundles.stripFront ['"'] (rest.dropWhile isSpace)
  matchToken rest

def searchTemplate (atStart : Bool) : List Char -> Option (List Char)
  | [] => if atStart then matchTemplate [] else none
  | c :: rest =>
      (if atStart then matchTemplate (c :: rest) else none).orElse fun _ =>
        searchTemplate (isLineEnd c) rest

/-- What `TextDecoder` leaves of a text: not the byte order mark. -/
def withoutMark : List Char -> List Char
  | '\uFEFF' :: rest => rest
  | text => text

def templateFromManifest (data : Bytes) : Option String :=
  (searchTemplate true (platform.decode data).toList).map String.ofList

/-!
# The archive
-/

/-- `rawName.replace(/\\/g, "/")` -/
def slashes (rawName : List Char) : List Char :=
  rawName.map fun c => if c = '\\' then '/' else c

def entryName (rawName : String) : String :=
  let name := slashes rawName.toList
  String.ofList (if ['.', '/'].isPrefixOf name then name.drop 2 else name)

structure OpenedBundle where
  configJson : Json
  scripts : List (String × Bytes)
  template : Option String
  carried : List (String × Bytes)

def openStep (o : OpenedBundle) (file : String × Bytes) : Except String OpenedBundle :=
  let name := entryName file.1
  if name.toList.getLast? = some '/' then Except.ok o
  else if name = "config.json" then
    match platform.parseJson (platform.decode file.2) with
    | Except.ok v => Except.ok { o with configJson := v }
    | Except.error e => Except.error ("bundle config.json is invalid JSON: " ++ e)
  else if name = "bundle.toml" then
    Except.ok { o with template := templateFromManifest platform file.2 }
  else if Bundles.isScript name then
    Except.ok { o with scripts := o.scripts ++ [(name, file.2)] }
  else Except.ok { o with carried := o.carried ++ [(name, file.2)] }

def nothingOpened : OpenedBundle where
  configJson := Json.object []
  scripts := []
  template := none
  carried := []

def readBundleZip (bytes : Bytes) : Except String OpenedBundle :=
  match platform.unzipSync bytes with
  | Except.error e => Except.error ("bundle is not a readable zip: " ++ e)
  | Except.ok files =>
      match files.foldlM (openStep platform) nothingOpened with
      | Except.error e => Except.error e
      | Except.ok o =>
          Except.ok
            { o with scripts := o.scripts.insertionSort fun a b => platform.localeLe a.1 b.1 }

/-!
# Where a manifest sets a template

A setting is the word, the sign and a token in quotes, with nothing but blanks between
them.  Whether a reader takes it depends on these blanks and on what stands around it:
`lines` ends a line at `\n` only and keeps a setting within it, and the two sides differ
on U+0085 and U+FEFF.
-/

namespace Manifest

@[ext]
structure Setting (text : List Char) where
  before : List Char
  /-- Between the word and the sign. -/
  left : List Char
  /-- Between the sign and the quote. -/
  right : List Char
  token : List Char
  after : List Char
  text_eq : text = before ++ ("template".toList ++ (left ++ '=' :: (right ++ '"' ::
    (token ++ '"' :: after))))
  blank : forall c, c ∈ left ++ right -> isSpace c = true ∨ isWhitespace c = true
  valid : Hosts.validBundleToken (String.ofList token) = true

/-- Nothing but blanks up to where the line ends, or the text. -/
def clear (blank ends : Char -> Bool) : List Char -> Bool
  | [] => true
  | c :: rest => ends c || (blank c && clear blank ends rest)

variable {text xs ys : List Char} {c : Char} {blank ends : Char -> Bool}

/-- Set off by what JavaScript takes for blanks, in lines of its own or across them. -/
structure Setting.OnPage (s : Setting text) : Prop where
  gaps : forall c, c ∈ s.left ++ s.right -> isSpace c = true
  front : clear isSpace isLineEnd s.before.reverse = true
  back : clear isSpace isLineEnd s.after = true

/-- In one line with Unicode white space around and within it. -/
structure Setting.OnServer (s : Setting text) : Prop where
  gaps : forall c, c ∈ s.left ++ s.right -> isWhitespace c = true ∧ c ≠ '\n'
  front : clear isWhitespace (· == '\n') s.before.reverse = true
  back : clear isWhitespace (· == '\n') s.after = true

def Setting.First (takes : Setting text -> Prop) (s : Setting text) : Prop :=
  takes s ∧ forall r, takes r -> s.before.length ≤ r.before.length

/-- Where the first setting that one side takes is none for the other, that one comes to
the same token elsewhere. -/
structure SetAlike (text : List Char) : Prop where
  page : forall s : Setting text, s.First Setting.OnPage -> Not s.OnServer ->
    exists r : Setting text, r.First Setting.OnServer ∧ r.token = s.token
  server : forall s : Setting text, s.First Setting.OnServer -> Not s.OnPage ->
    exists r : Setting text, r.First Setting.OnPage ∧ r.token = s.token

/-!
# Blanks and tokens
-/

theorem clear_append (h : forall c, c ∈ xs -> blank c = true) :
    clear blank ends ys = true -> clear blank ends (xs ++ ys) = true := by
  intro hys
  induction xs with
  | nil => exact hys
  | cons x xs ih =>
      show (ends x || (blank x && clear blank ends (xs ++ ys))) = true
      rw [h x List.mem_cons_self, ih fun c hc => h c (List.mem_cons_of_mem _ hc)]
      exact Bool.or_true _

theorem clear_iff : clear blank ends xs = true <->
    exists w rest, xs = w ++ rest ∧ (forall c, c ∈ w -> blank c = true) ∧
      forall c, rest.head? = some c -> ends c = true := by
  constructor
  · intro h
    induction xs with
    | nil => exact ⟨[], [], rfl, fun _ hc => (List.not_mem_nil hc).elim, fun _ hc => nomatch hc⟩
    | cons x xs ih =>
        by_cases hends : ends x = true
        · refine ⟨[], x :: xs, rfl, fun _ hc => (List.not_mem_nil hc).elim, ?_⟩
          intro c hc
          cases hc
          exact hends
        · have hboth : (blank x && clear blank ends xs) = true := by
            rw [clear, Bool.eq_false_iff.mpr hends, Bool.false_or] at h
            exact h
          rw [Bool.and_eq_true] at hboth
          rcases ih hboth.2 with ⟨w, rest, hxs, hw, hrest⟩
          refine ⟨x :: w, rest, congrArg (x :: ·) hxs, ?_, hrest⟩
          intro c hc
          cases List.mem_cons.mp hc with
          | inl hhead => exact hhead ▸ hboth.1
          | inr htail => exact hw c htail
  · intro h
    rcases h with ⟨w, rest, hxs, hw, hrest⟩
    rw [hxs]
    apply clear_append hw
    cases rest with
    | nil => rfl
    | cons c rest =>
        show (ends c || _) = true
        rw [hrest c rfl]
        rfl

theorem clear_append_end (hc : ends c = true) :
    clear blank ends (xs ++ c :: ys) = clear blank ends xs := by
  induction xs with
  | nil =>
      show (ends c || _) = true
      rw [hc]
      rfl
  | cons x xs ih =>
      show (ends x || (blank x && clear blank ends (xs ++ c :: ys))) = _
      rw [ih]
      rfl

theorem isSpace_of_lineEnd (h : isLineEnd c = true) : isSpace c = true := by
  unfold isLineEnd at h
  simp only [Bool.or_eq_true, beq_iff_eq] at h
  rcases h with ((hc | hc) | hc) | hc
  · rw [hc]
    rfl
  · rw [hc]
    rfl
  · unfold isSpace
    simp [hc]
  · unfold isSpace
    simp [hc]

theorem blankToLineEnd_eq (xs : List Char) :
    blankToLineEnd xs = clear isSpace isLineEnd xs := by
  induction xs with
  | nil => rfl
  | cons x xs ih =>
      unfold blankToLineEnd at ih ⊢
      rw [List.dropWhile_cons, List.takeWhile_cons, clear, ← ih]
      by_cases hspace : isSpace x = true
      · rw [if_pos hspace, if_pos hspace, List.any_cons, hspace, Bool.true_and]
        cases isLineEnd x <;> simp
      · have hends : isLineEnd x = false :=
          Bool.eq_false_iff.mpr fun h => hspace (isSpace_of_lineEnd h)
        rw [if_neg hspace, if_neg hspace, hends, Bool.eq_false_iff.mpr hspace]
        rfl

theorem byteLen_of_path (h : forall c, c ∈ xs -> isPathChar c = true) :
    byteLen (String.ofList xs) = xs.length := by
  rw [byteLen_ofList]
  induction xs with
  | nil => rfl
  | cons x xs ih =>
      have hx : x.toNat < 128 := ascii_of_pathChar (h x List.mem_cons_self)
      have hsize : x.utf8Size = 1 := by
        unfold Char.utf8Size
        apply if_pos
        show x.val.toNat ≤ 127
        have hval : x.val.toNat = x.toNat := rfl
        omega
      rw [List.foldr_cons, ih fun c hc => h c (List.mem_cons_of_mem _ hc), hsize,
        List.length_cons, Nat.add_comm]

theorem valid_iff (token : List Char) :
    Hosts.validBundleToken (String.ofList token) = true <->
      token ≠ [] ∧ token.length ≤ 128 ∧ forall c, c ∈ token -> isPathChar c = true := by
  have hchars : (token.all Hosts.isTokenChar = true) <->
      forall c, c ∈ token -> isPathChar c = true := by
    rw [List.all_eq_true]
    exact forall_congr' fun c => by rw [isPathChar_eq]
  have hempty : (!(String.ofList token).isEmpty) = true <-> token ≠ [] := by
    rw [Bool.not_eq_true', Bool.eq_false_iff, ne_eq, String.isEmpty_iff, String.ofList_eq_empty_iff]
  unfold Hosts.validBundleToken
  rw [Bool.and_eq_true, Bool.and_eq_true, String.toList_ofList, hchars, hempty, decide_eq_true_eq,
    and_assoc]
  constructor
  · intro h
    rw [byteLen_of_path h.2.2] at h
    exact h
  · intro h
    rw [byteLen_of_path h.2.2]
    exact h

theorem run_unique {p : Char -> Bool} {d : Char} {xs' ys' : List Char}
    (hxs : forall c, c ∈ xs -> p c = true) (hxs' : forall c, c ∈ xs' -> p c = true)
    (hd : p d = false) (h : xs ++ d :: ys = xs' ++ d :: ys') : xs = xs' ∧ ys = ys' := by
  have hend : forall zs : List Char, forall c, (d :: zs).head? = some c -> p c = false := by
    intro zs c hc
    cases hc
    exact hd
  have hfront := (takeWhile_until hxs (hend ys)).1
  rw [h, (takeWhile_until hxs' (hend ys')).1] at hfront
  rw [hfront] at h
  exact ⟨hfront.symm, (List.cons.inj (List.append_cancel_left h)).2⟩

theorem Setting.token_of_before (s r : Setting text) (h : s.before.length = r.before.length) :
    s.token = r.token := by
  have htext := s.text_eq.symm.trans r.text_eq
  have hword := List.append_cancel_left (List.append_inj htext h).2
  have hblank : forall (s : Setting text) c, c ∈ s.left ++ s.right ->
      (isSpace c || isWhitespace c) = true := by
    intro s c hc
    rw [Bool.or_eq_true]
    exact s.blank c hc
  have hvalue := (run_unique (fun c hc => hblank s c (List.mem_append_left _ hc))
    (fun c hc => hblank r c (List.mem_append_left _ hc)) (by decide) hword).2
  have hquoted := (run_unique (fun c hc => hblank s c (List.mem_append_right _ hc))
    (fun c hc => hblank r c (List.mem_append_right _ hc)) (by decide) hvalue).2
  exact (run_unique ((valid_iff _).mp s.valid).2.2 ((valid_iff _).mp r.valid).2.2 (by decide)
    hquoted).1

/-!
# The first setting
-/

variable {takes other : Setting text -> Prop} {found : Option String}

theorem exists_first {s : Setting text} (h : takes s) : exists r : Setting text, r.First takes := by
  have hwf := (measure fun r : Setting text => r.before.length).wf
  rcases hwf.has_min {r | takes r} ⟨s, h⟩ with ⟨r, hr, hmin⟩
  exact ⟨r, hr, fun t ht => Nat.le_of_not_lt (hmin t ht)⟩

theorem token_of_first {s r : Setting text} (hs : s.First takes) (hr : r.First takes) :
    s.token = r.token :=
  s.token_of_before r (Nat.le_antisymm (hs.2 r hr.1) (hr.2 s hs.1))

structure Finds (takes : Setting text -> Prop) (found : Option String) : Prop where
  nothing : found = none -> forall s, Not (takes s)
  token : forall t, found = some t ->
    exists s : Setting text, s.First takes ∧ String.ofList s.token = t

theorem Finds.of_first (h : Finds takes found) {s : Setting text} (hs : s.First takes) :
    found = some (String.ofList s.token) := by
  cases hfound : found with
  | none => exact absurd hs.1 (h.nothing hfound s)
  | some t =>
      rcases h.token t hfound with ⟨r, hr, ht⟩
      rw [← ht, token_of_first hs hr]

/-- Where a reader takes its first setting and another does not, they may still come to
one token. -/
theorem found_of_first {found' : Option String} (h : Finds takes found)
    (h' : Finds other found')
    (hother : forall s : Setting text, s.First takes -> Not (other s) ->
      exists r : Setting text, r.First other ∧ r.token = s.token)
    (hback : forall s : Setting text, s.First other -> Not (takes s) ->
      exists r : Setting text, r.First takes ∧ r.token = s.token)
    {s : Setting text} (hs : s.First takes) : found = found' := by
  rw [h.of_first hs]
  by_cases hin : other s
  · rcases exists_first hin with ⟨r, hr⟩
    rw [h'.of_first hr]
    by_cases hboth : takes r
    · rw [s.token_of_before r (Nat.le_antisymm (hs.2 r hboth) (hr.2 s hin))]
    · rcases hback r hr hboth with ⟨q, hq, htoken⟩
      rw [token_of_first hs hq, htoken]
  · rcases hother s hs hin with ⟨r, hr, htoken⟩
    rw [h'.of_first hr, htoken]

/-- Two readers agree just when their first settings are alike. -/
theorem found_iff_setAlike {found' : Option String}
    (hpage : Finds (@Setting.OnPage text) found)
    (hserver : Finds (@Setting.OnServer text) found') : found = found' <-> SetAlike text := by
  constructor
  · intro hsame
    have hsome : forall {takes other : Setting text -> Prop} {a : Option String},
        Finds takes a -> Finds other a -> forall s : Setting text, s.First takes ->
          exists r : Setting text, r.First other ∧ r.token = s.token := by
      intro takes other a ha hb s hs
      rcases hb.token _ (ha.of_first hs) with ⟨r, hr, htoken⟩
      exact ⟨r, hr, String.ofList_injective htoken⟩
    rw [← hsame] at hserver
    exact ⟨fun s hs _ => hsome hpage hserver s hs, fun s hs _ => hsome hserver hpage s hs⟩
  · intro h
    by_cases hany : exists s : Setting text, s.OnPage
    · rcases hany with ⟨s, hs⟩
      rcases exists_first hs with ⟨r, hr⟩
      exact found_of_first hpage hserver h.page h.server hr
    · by_cases hanyServer : exists s : Setting text, s.OnServer
      · rcases hanyServer with ⟨s, hs⟩
        rcases exists_first hs with ⟨r, hr⟩
        exact (found_of_first hserver hpage h.server h.page hr).symm
      · have hnone : forall {takes : Setting text -> Prop} {a : Option String}, Finds takes a ->
            Not (exists s, takes s) -> a = none := by
          intro takes a ha hno
          cases hfound : a with
          | none => rfl
          | some t =>
              rcases ha.token t hfound with ⟨s, hs, _⟩
              exact absurd ⟨s, hs.1⟩ hno
        rw [hnone hpage hany, hnone hserver hanyServer]

/-!
# What the page finds
-/

variable {token w rest : List Char}

theorem stripFront_iff {front : List Char} :
    Bundles.stripFront front text = some rest <-> text = front ++ rest := by
  unfold Bundles.stripFront
  constructor
  · intro h
    split at h
    · rename_i hfront
      rcases List.isPrefixOf_iff_prefix.mp hfront with ⟨more, hmore⟩
      rw [← hmore, List.drop_left] at h
      rw [← hmore, Option.some.inj h]
    · cases h
  · intro h
    rw [h, if_pos (List.isPrefixOf_iff_prefix.mpr (List.prefix_append _ _)), List.drop_left]

/-- Past some blanks a word stands, which starts with none. -/
theorem skip_iff {p : Char -> Bool} {d : Char} {front : List Char} (hd : p d = false) :
    Bundles.stripFront (d :: front) (text.dropWhile p) = some rest <->
      exists w, text = w ++ (d :: front ++ rest) ∧ forall c, c ∈ w -> p c = true := by
  rw [stripFront_iff]
  constructor
  · intro h
    refine ⟨text.takeWhile p, ?_, fun c hc => List.mem_takeWhile_imp hc⟩
    rw [← h, List.takeWhile_append_dropWhile]
  · intro h
    rcases h with ⟨w, htext, hw⟩
    rw [htext]
    apply (takeWhile_until hw ?_).2
    intro c hc
    cases hc
    exact hd

theorem matchToken_iff : matchToken text = some token <->
    exists after, text = token ++ '"' :: after ∧
      Hosts.validBundleToken (String.ofList token) = true ∧
        clear isSpace isLineEnd after = true := by
  unfold matchToken
  constructor
  · intro h
    dsimp only at h
    split at h
    · cases h
    · rename_i hlength
      rw [Bool.or_eq_true, not_or, decide_eq_true_eq, List.isEmpty_iff] at hlength
      split at h
      · rename_i after hafter
        split at h
        · rename_i hclear
          cases h
          refine ⟨after, ?_, (valid_iff _).mpr ⟨hlength.1, Nat.le_of_not_lt hlength.2, ?_⟩, ?_⟩
          · rw [← hafter, List.takeWhile_append_dropWhile]
          · exact fun c hc => List.mem_takeWhile_imp hc
          · rw [← blankToLineEnd_eq]
            exact hclear
        · cases h
      · cases h
  · intro h
    rcases h with ⟨after, htext, hvalid, hclear⟩
    rw [valid_iff] at hvalid
    have hquote : forall c, ('"' :: after).head? = some c -> isPathChar c = false := by
      intro c hc
      cases hc
      decide
    have hsplit := takeWhile_until hvalid.2.2 hquote
    have hshort : (token.isEmpty || decide (128 < token.length)) = false := by
      rw [Bool.or_eq_false_iff, decide_eq_false_iff_not, List.isEmpty_eq_false_iff]
      exact ⟨hvalid.1, Nat.not_lt.mpr hvalid.2.1⟩
    rw [htext, hsplit.1, hsplit.2]
    dsimp only
    rw [hshort]
    show (if blankToLineEnd after = true then some token else none) = some token
    rw [blankToLineEnd_eq, if_pos hclear]

theorem matchTemplate_iff : matchTemplate text = some token <->
    exists w left right after,
      text = w ++ ("template".toList ++ (left ++ '=' :: (right ++ '"' ::
        (token ++ '"' :: after)))) ∧
      (forall c, c ∈ w -> isSpace c = true) ∧ (forall c, c ∈ left -> isSpace c = true) ∧
      (forall c, c ∈ right -> isSpace c = true) ∧
      Hosts.validBundleToken (String.ofList token) = true ∧
        clear isSpace isLineEnd after = true := by
  have hword : "template".toList = 't' :: "emplate".toList := by decide
  unfold matchTemplate
  rw [hword]
  constructor
  · intro h
    rcases Option.bind_eq_some_iff.mp h with ⟨first, hfirst, h⟩
    rcases Option.bind_eq_some_iff.mp h with ⟨second, hsecond, h⟩
    rcases Option.bind_eq_some_iff.mp h with ⟨third, hthird, h⟩
    rcases (skip_iff (by decide)).mp hfirst with ⟨w, htext, hw⟩
    rcases (skip_iff (by decide)).mp hsecond with ⟨left, hleft, hblank⟩
    rcases (skip_iff (by decide)).mp hthird with ⟨right, hright, hblankRight⟩
    rcases matchToken_iff.mp h with ⟨after, hafter, hvalid, hclear⟩
    refine ⟨w, left, right, after, ?_, hw, hblank, hblankRight, hvalid, hclear⟩
    rw [htext, hleft, hright, hafter]
    rfl
  · intro h
    rcases h with ⟨w, left, right, after, htext, hw, hblank, hblankRight, hvalid, hclear⟩
    apply Option.bind_eq_some_iff.mpr
    refine ⟨_, (skip_iff (by decide)).mpr ⟨w, htext, hw⟩, ?_⟩
    apply Option.bind_eq_some_iff.mpr
    refine ⟨_, (skip_iff (by decide)).mpr ⟨left, rfl, hblank⟩, ?_⟩
    apply Option.bind_eq_some_iff.mpr
    refine ⟨_, (skip_iff (by decide)).mpr ⟨right, rfl, hblankRight⟩, ?_⟩
    exact matchToken_iff.mpr ⟨after, rfl, hvalid, hclear⟩

def startsLine (front : List Char) : Bool :=
  front.getLast?.all isLineEnd

theorem startsLine_snoc (front : List Char) (c : Char) :
    startsLine (front ++ [c]) = isLineEnd c := by
  unfold startsLine
  rw [List.getLast?_concat]
  rfl

theorem clear_reverse_iff : clear isSpace isLineEnd xs.reverse = true <->
    exists front w, xs = front ++ w ∧ (forall c, c ∈ w -> isSpace c = true) ∧
      startsLine front = true := by
  rw [clear_iff]
  constructor
  · intro h
    rcases h with ⟨w, rest, hxs, hw, hrest⟩
    refine ⟨rest.reverse, w.reverse, ?_, fun c hc => hw c (List.mem_reverse.mp hc), ?_⟩
    · rw [← List.reverse_append, ← hxs, List.reverse_reverse]
    · unfold startsLine
      rw [List.getLast?_reverse, Option.all_eq_true]
      exact hrest
  · intro h
    rcases h with ⟨front, w, hxs, hw, hfront⟩
    refine ⟨w.reverse, front.reverse, ?_, fun c hc => hw c (List.mem_reverse.mp hc), ?_⟩
    · rw [hxs, List.reverse_append]
    · unfold startsLine at hfront
      rw [Option.all_eq_true] at hfront
      rw [List.head?_reverse]
      exact hfront

theorem search_none : forall {rest front : List Char},
    searchTemplate (startsLine front) rest = none ->
      forall mid tail, rest = mid ++ tail -> startsLine (front ++ mid) = true ->
        matchTemplate tail = none := by
  intro rest
  induction rest with
  | nil =>
      intro front h mid tail hsplit hstart
      rcases List.append_eq_nil_iff.mp hsplit.symm with ⟨hmid, htail⟩
      rw [hmid, List.append_nil] at hstart
      rw [searchTemplate, if_pos hstart] at h
      rw [htail]
      exact h
  | cons c rest ih =>
      intro front h mid tail hsplit hstart
      have h : ((if startsLine front then matchTemplate (c :: rest) else none) <|>
          searchTemplate (isLineEnd c) rest) = none := h
      rw [Option.orElse_eq_none] at h
      cases mid with
      | nil =>
          rw [List.append_nil] at hstart
          rw [if_pos hstart, hsplit] at h
          exact h.1
      | cons d mid =>
          cases hsplit
          have hlater := h.2
          rw [← startsLine_snoc front] at hlater
          apply ih hlater mid tail rfl
          rw [List.append_assoc]
          exact hstart

theorem search_some : forall {rest front : List Char},
    searchTemplate (startsLine front) rest = some token ->
      exists mid tail, rest = mid ++ tail ∧ startsLine (front ++ mid) = true ∧
        matchTemplate tail = some token ∧
        forall mid' tail', rest = mid' ++ tail' -> startsLine (front ++ mid') = true ->
          matchTemplate tail' ≠ none -> mid.length ≤ mid'.length := by
  intro rest
  induction rest with
  | nil =>
      intro front h
      rw [searchTemplate] at h
      split at h
      · rename_i hstart
        refine ⟨[], [], rfl, ?_, h, fun _ _ _ _ _ => Nat.zero_le _⟩
        rw [List.append_nil]
        exact hstart
      · cases h
  | cons c rest ih =>
      intro front h
      have h : ((if startsLine front then matchTemplate (c :: rest) else none) <|>
          searchTemplate (isLineEnd c) rest) = some token := h
      rw [Option.orElse_eq_some] at h
      rcases h with h | ⟨hnone, h⟩
      · split at h
        · rename_i hstart
          refine ⟨[], c :: rest, rfl, ?_, h, fun _ _ _ _ _ => Nat.zero_le _⟩
          rw [List.append_nil]
          exact hstart
        · cases h
      · rw [← startsLine_snoc front] at h
        rcases ih h with ⟨mid, tail, hsplit, hstart, hmatch, hfirst⟩
        refine ⟨c :: mid, tail, congrArg (c :: ·) hsplit, ?_, hmatch, ?_⟩
        · rw [List.append_assoc] at hstart
          exact hstart
        · intro mid' tail' hsplit' hstart' hmatch'
          cases mid' with
          | nil =>
              rw [List.append_nil] at hstart'
              rw [if_pos hstart', hsplit'] at hnone
              exact absurd hnone hmatch'
          | cons d mid' =>
              cases hsplit'
              apply Nat.succ_le_succ
              apply hfirst mid' tail' rfl _ hmatch'
              rw [List.append_assoc]
              exact hstart'

theorem length_le_of_blanks {p : Char -> Bool} {d : Char} {zs : List Char}
    (hw : forall c, c ∈ w -> p c = true) (hd : p d = false) (h : w ++ xs = zs ++ d :: ys) :
    w.length ≤ zs.length := by
  by_contra hlong
  rw [Nat.not_le] at hlong
  have hat := congrArg (fun l : List Char => l[zs.length]?) h
  simp only [List.getElem?_append_left hlong, List.getElem?_append_right (Nat.le_refl _),
    Nat.sub_self, List.getElem?_cons_zero] at hat
  rw [hw d (List.mem_of_getElem? hat)] at hd
  cases hd

theorem finds_page (text : List Char) :
    Finds (@Setting.OnPage text) ((searchTemplate true text).map String.ofList) := by
  have hstart : startsLine [] = true := rfl
  -- A setting the page takes is matched from where its line starts.
  have hmatch : forall r : Setting text, r.OnPage -> exists front w tail,
      r.before = front ++ w ∧ text = front ++ tail ∧ startsLine front = true ∧
        matchTemplate tail = some r.token := by
    intro r hr
    rcases clear_reverse_iff.mp hr.front with ⟨front, w, hbefore, hw, hfront⟩
    refine ⟨front, w, _, hbefore, ?_, hfront, matchTemplate_iff.mpr ⟨w, r.left, r.right, r.after,
      rfl, hw, fun c hc => hr.gaps c (List.mem_append_left _ hc),
      fun c hc => hr.gaps c (List.mem_append_right _ hc), r.valid, hr.back⟩⟩
    rw [← List.append_assoc, ← hbefore]
    exact r.text_eq
  constructor
  · intro hnone s hs
    rw [Option.map_eq_none_iff, ← hstart] at hnone
    rcases hmatch s hs with ⟨front, w, tail, _, htext, hfront, htail⟩
    rw [search_none hnone front tail htext hfront] at htail
    cases htail
  · intro t ht
    rcases Option.map_eq_some_iff.mp ht with ⟨token, hfound, htoken⟩
    rw [← hstart] at hfound
    rcases search_some hfound with ⟨mid, tail, hsplit, hmid, htail, hfirst⟩
    rcases matchTemplate_iff.mp htail with
      ⟨w, left, right, after, htext, hw, hleft, hright, hvalid, hclear⟩
    have hgaps : forall c, c ∈ left ++ right -> isSpace c = true := by
      intro c hc
      cases List.mem_append.mp hc with
      | inl hin => exact hleft c hin
      | inr hin => exact hright c hin
    have hwhole : text = (mid ++ w) ++ ("template".toList ++ (left ++ '=' :: (right ++ '"' ::
        (token ++ '"' :: after)))) := by
      rw [hsplit, htext, List.append_assoc]
    refine ⟨⟨mid ++ w, left, right, token, after, hwhole, fun c hc => Or.inl (hgaps c hc),
      hvalid⟩, ⟨⟨hgaps, clear_reverse_iff.mpr ⟨mid, w, rfl, hw, hmid⟩, hclear⟩, ?_⟩, htoken⟩
    intro r hr
    rcases hmatch r hr with ⟨front, v, rest, hbefore, hrest, hfront, hsome⟩
    have hle := hfirst front rest hrest hfront (by rw [hsome]; exact Option.some_ne_none _)
    -- The blanks the match starts with end where the word of `r` starts, or before.
    have hword : "template".toList = 't' :: "emplate".toList := by decide
    have ht : isSpace 't' = false := by decide
    have hboth := hwhole.symm.trans r.text_eq
    rw [hbefore, hword] at hboth
    show (mid ++ w).length ≤ r.before.length
    rw [hbefore]
    rcases List.append_eq_append_iff.mp (hsplit.symm.trans hrest) with
      ⟨more, hmore, -⟩ | ⟨more, hmore, -⟩
    · rw [hmore, List.append_assoc, List.append_assoc, List.append_assoc,
        List.append_cancel_left_eq] at hboth
      have hshort := length_le_of_blanks hw ht (hboth.trans (List.append_assoc more v _).symm)
      rw [hmore]
      simp only [List.length_append] at hshort ⊢
      omega
    · have hnil : more = [] := by
        have hlength := congrArg List.length hmore
        rw [List.length_append] at hlength
        apply List.eq_nil_of_length_eq_zero
        omega
      rw [hnil, List.append_nil] at hmore
      rw [hmore, List.append_assoc, List.append_assoc,
        List.append_cancel_left_eq] at hboth
      have hshort := length_le_of_blanks hw ht hboth
      rw [hmore]
      simp only [List.length_append]
      omega

theorem search_withoutMark (text : List Char) :
    searchTemplate true (withoutMark text) = searchTemplate true text := by
  unfold withoutMark
  split
  · rename_i rest
    have hskip : matchTemplate ('\uFEFF' :: rest) = matchTemplate rest := by
      unfold matchTemplate
      rfl
    cases rest with
    | nil => rfl
    | cons c rest =>
        show (matchTemplate (c :: rest)).orElse _ = (matchTemplate ('\uFEFF' :: c :: rest)).orElse _
        rw [hskip]
        rfl
  · rfl

/-!
# What the server finds
-/

theorem trimBlanks_split (text : List Char) : exists a b,
    text = a ++ (Bundles.trimBlanks text ++ b) ∧ (forall c, c ∈ a -> isWhitespace c = true) ∧
      forall c, c ∈ b -> isWhitespace c = true := by
  refine ⟨text.takeWhile isWhitespace,
    ((text.dropWhile isWhitespace).reverse.takeWhile isWhitespace).reverse, ?_,
    fun c hc => List.mem_takeWhile_imp hc,
    fun c hc => List.mem_takeWhile_imp (List.mem_reverse.mp hc)⟩
  unfold Bundles.trimBlanks
  rw [← List.reverse_append, List.takeWhile_append_dropWhile, List.reverse_reverse,
    List.takeWhile_append_dropWhile]

theorem trimBlanks_of {a v b : List Char} {first last : Char}
    (ha : forall c, c ∈ a -> isWhitespace c = true)
    (hb : forall c, c ∈ b -> isWhitespace c = true)
    (hfirst : isWhitespace first = false) (hlast : isWhitespace last = false)
    (hhead : v.head? = some first) (hend : v.getLast? = some last) :
    Bundles.trimBlanks (a ++ (v ++ b)) = v := by
  have hfront : forall c, (v ++ b).head? = some c -> isWhitespace c = false := by
    intro c hc
    rw [List.head?_append, hhead] at hc
    cases hc
    exact hfirst
  have hback : forall c, v.reverse.head? = some c -> isWhitespace c = false := by
    intro c hc
    rw [List.head?_reverse, hend] at hc
    cases hc
    exact hlast
  unfold Bundles.trimBlanks
  rw [(takeWhile_until ha hfront).2, List.reverse_append,
    (takeWhile_until (fun c hc => hb c (List.mem_reverse.mp hc)) hback).2, List.reverse_reverse]

theorem getLast?_quoted (left right token : List Char) :
    ("template".toList ++ (left ++ '=' :: (right ++ '"' :: (token ++ ['"'])))).getLast? =
      some '"' := by
  have hends : "template".toList ++ (left ++ '=' :: (right ++ '"' :: (token ++ ['"']))) =
      ("template".toList ++ (left ++ '=' :: (right ++ '"' :: token))) ++ ['"'] := by
    simp only [List.append_assoc, List.cons_append]
  rw [hends]
  exact List.getLast?_concat

theorem templateOfLine_iff {line : List Char} {t : String} :
    Bundles.templateOfLine line = some t <->
      exists a left right token b,
        line = a ++ ("template".toList ++ (left ++ '=' :: (right ++ '"' ::
          (token ++ '"' :: b)))) ∧
        (forall c, c ∈ a -> isWhitespace c = true) ∧
        (forall c, c ∈ left -> isWhitespace c = true) ∧
        (forall c, c ∈ right -> isWhitespace c = true) ∧
        (forall c, c ∈ b -> isWhitespace c = true) ∧
        Hosts.validBundleToken (String.ofList token) = true ∧ String.ofList token = t := by
  have hquote : isWhitespace '"' = false := by decide
  unfold Bundles.templateOfLine
  constructor
  · intro h
    rcases Option.bind_eq_some_iff.mp h with ⟨first, hfirst, h⟩
    rcases Option.bind_eq_some_iff.mp h with ⟨second, hsecond, h⟩
    rcases Option.bind_eq_some_iff.mp h with ⟨third, hthird, h⟩
    rcases Option.bind_eq_some_iff.mp h with ⟨token, htoken, h⟩
    split at h
    · rename_i hvalid
      rcases trimBlanks_split line with ⟨a, b, hline, ha, hb⟩
      rcases (skip_iff (by decide)).mp hsecond with ⟨left, hleft, hblank⟩
      rcases trimBlanks_split second with ⟨right, b', hright, hblankRight, hb'⟩
      have hquoted : third = token ++ ['"'] := by
        unfold Bundles.stripBack at htoken
        split at htoken
        · rename_i hlast
          rw [← Option.some.inj htoken]
          exact (List.dropLast_append_getLast? _ hlast).symm
        · cases htoken
      rw [stripFront_iff] at hfirst hthird
      refine ⟨a, left, right, token, b' ++ b, ?_, ha, hblank, hblankRight, ?_, hvalid,
        Option.some.inj h⟩
      · rw [hline, hfirst, hleft, hright, hthird, hquoted]
        simp only [List.append_assoc, List.cons_append, List.nil_append]
      · intro c hc
        cases List.mem_append.mp hc with
        | inl hin => exact hb' c hin
        | inr hin => exact hb c hin
    · cases h
  · intro h
    rcases h with ⟨a, left, right, token, b, hline, ha, hleft, hright, hb, hvalid, ht⟩
    have hcore : Bundles.trimBlanks line = "template".toList ++ (left ++ '=' :: (right ++ '"' ::
        (token ++ ['"']))) := by
      rw [hline]
      have hsame : a ++ ("template".toList ++ (left ++ '=' :: (right ++ '"' ::
            (token ++ '"' :: b)))) =
          a ++ (("template".toList ++ (left ++ '=' :: (right ++ '"' :: (token ++ ['"'])))) ++ b) := by
        simp only [List.append_assoc, List.cons_append, List.nil_append]
      rw [hsame]
      apply trimBlanks_of ha hb (by decide : isWhitespace 't' = false) hquote rfl
      exact getLast?_quoted left right token
    have hvalue : Bundles.trimBlanks (right ++ '"' :: (token ++ ['"'])) =
        '"' :: (token ++ ['"']) := by
      have hsame : right ++ '"' :: (token ++ ['"']) = right ++ (('"' :: (token ++ ['"'])) ++ []) := by
        rw [List.append_nil]
      rw [hsame]
      apply trimBlanks_of hright (fun c hc => (List.not_mem_nil hc).elim) hquote hquote rfl
      exact List.getLast?_concat (l := '"' :: token)
    rw [hcore]
    apply Option.bind_eq_some_iff.mpr
    refine ⟨_, stripFront_iff.mpr rfl, ?_⟩
    apply Option.bind_eq_some_iff.mpr
    refine ⟨_, (skip_iff (by decide)).mpr ⟨left, rfl, hleft⟩, ?_⟩
    apply Option.bind_eq_some_iff.mpr
    refine ⟨_, stripFront_iff.mpr (hvalue.trans rfl), ?_⟩
    apply Option.bind_eq_some_iff.mpr
    refine ⟨token, ?_, ?_⟩
    · show Bundles.stripBack '"' (token ++ ['"']) = some token
      unfold Bundles.stripBack
      rw [List.getLast?_concat, if_pos rfl, List.dropLast_concat]
    · rw [if_pos hvalid, ht]

theorem trimBlanks_return (line : List Char) :
    Bundles.trimBlanks (line ++ ['\r']) = Bundles.trimBlanks line := by
  unfold Bundles.trimBlanks
  rw [List.dropWhile_append]
  cases hline : line.dropWhile isWhitespace with
  | nil => rfl
  | cons c rest =>
      show (((c :: rest) ++ ['\r']).reverse.dropWhile isWhitespace).reverse = _
      rw [List.reverse_append]
      rfl

theorem templateOfLine_stripReturn (line : List Char) :
    Bundles.templateOfLine (Bundles.stripReturn line) = Bundles.templateOfLine line := by
  unfold Bundles.stripReturn
  split
  · rename_i hlast
    have hline := List.dropLast_append_getLast? _ hlast
    unfold Bundles.templateOfLine
    conv_rhs => rw [← hline, trimBlanks_return]
  · rfl

/-!
# Line by line
-/

variable {line : List Char}

theorem templates_last (h : '\n' ∉ line) :
    (Bundles.textLines line).findSome? Bundles.templateOfLine = Bundles.templateOfLine line := by
  unfold Bundles.textLines
  rw [List.splitOn_eq_singleton h]
  cases line with
  | nil => rfl
  | cons c rest =>
      show List.findSome? _ [c :: rest] = _
      rw [List.findSome?_singleton]

theorem templates_cons (h : '\n' ∉ line) (rest : List Char) :
    (Bundles.textLines (line ++ '\n' :: rest)).findSome? Bundles.templateOfLine =
      (Bundles.templateOfLine line).or
        ((Bundles.textLines rest).findSome? Bundles.templateOfLine) := by
  unfold Bundles.textLines
  rw [List.splitOn_append_cons_self_of_not_mem h]
  cases hparts : rest.splitOn '\n' with
  | nil => exact absurd hparts (List.splitOn_ne_nil _ _)
  | cons part parts =>
      show List.findSome? _ (Bundles.stripReturn line :: _) = _
      rw [List.findSome?_cons, templateOfLine_stripReturn]
      cases Bundles.templateOfLine line with
      | none => rfl
      | some t => rfl

theorem blanks_of_clear (hends : forall c, c ∈ xs -> ends c = false)
    (h : clear blank ends xs = true) : forall c, c ∈ xs -> blank c = true := by
  rcases clear_iff.mp h with ⟨w, rest, hxs, hw, hrest⟩
  cases rest with
  | nil =>
      rw [hxs, List.append_nil]
      exact hw
  | cons c rest =>
      have hmem : c ∈ xs := by
        rw [hxs]
        exact List.mem_append_right _ List.mem_cons_self
      have hfalse := hends c hmem
      rw [hrest c rfl] at hfalse
      cases hfalse

theorem no_end (h : '\n' ∉ xs) : forall c, c ∈ xs -> (c == '\n') = false :=
  fun _ hc => beq_eq_false_iff_ne.mpr fun heq => h (heq ▸ hc)

theorem finds_line (h : '\n' ∉ line) :
    Finds (@Setting.OnServer line) (Bundles.templateOfLine line) := by
  constructor
  · intro hnone s hs
    have hmem : forall c, c ∈ s.before ∨ c ∈ s.after -> c ∈ line := by
      intro c hc
      rw [s.text_eq]
      cases hc with
      | inl hin => exact List.mem_append_left _ hin
      | inr hin => simp [hin]
    have hbefore : forall c, c ∈ s.before -> isWhitespace c = true := by
      intro c hc
      apply blanks_of_clear (no_end _) hs.front c (List.mem_reverse.mpr hc)
      exact fun hin => h (hmem _ (Or.inl (List.mem_reverse.mp hin)))
    have hafter := blanks_of_clear (no_end fun hin => h (hmem _ (Or.inr hin))) hs.back
    have hsome := templateOfLine_iff.mpr ⟨s.before, s.left, s.right, s.token, s.after, s.text_eq,
      hbefore, fun c hc => (hs.gaps c (List.mem_append_left _ hc)).1,
      fun c hc => (hs.gaps c (List.mem_append_right _ hc)).1, hafter, s.valid, rfl⟩
    rw [hnone] at hsome
    cases hsome
  · intro t ht
    rcases templateOfLine_iff.mp ht with
      ⟨a, left, right, token, b, hline, ha, hleft, hright, hb, hvalid, htoken⟩
    have hgaps : forall c, c ∈ left ++ right -> isWhitespace c = true ∧ c ≠ '\n' := by
      intro c hc
      constructor
      · cases List.mem_append.mp hc with
        | inl hin => exact hleft c hin
        | inr hin => exact hright c hin
      · intro heq
        apply h
        rw [hline, ← heq]
        cases List.mem_append.mp hc with
        | inl hin => simp [hin]
        | inr hin => simp [hin]
    have hclear : forall {xs : List Char}, (forall c, c ∈ xs -> isWhitespace c = true) ->
        clear isWhitespace (· == '\n') xs = true :=
      fun {xs} hxs => clear_iff.mpr ⟨xs, [], (List.append_nil xs).symm, hxs, fun _ hc => nomatch hc⟩
    refine ⟨⟨a, left, right, token, b, hline, fun c hc => Or.inr (hgaps c hc).1, hvalid⟩,
      ⟨⟨hgaps, hclear fun c hc => ha c (List.mem_reverse.mp hc), hclear hb⟩, ?_⟩, htoken⟩
    intro r _
    exact length_le_of_blanks ha (by decide : isWhitespace 't' = false)
      (hline.symm.trans r.text_eq)

def Setting.inLine (s : Setting line) (rest : List Char) : Setting (line ++ '\n' :: rest) where
  before := s.before
  left := s.left
  right := s.right
  token := s.token
  after := s.after ++ '\n' :: rest
  text_eq := by
    conv_lhs => rw [s.text_eq]
    simp only [List.append_assoc, List.cons_append]
  blank := s.blank
  valid := s.valid

def Setting.behind (line : List Char) (s : Setting rest) : Setting (line ++ '\n' :: rest) where
  before := line ++ '\n' :: s.before
  left := s.left
  right := s.right
  token := s.token
  after := s.after
  text_eq := by
    conv_lhs => rw [s.text_eq]
    simp only [List.append_assoc, List.cons_append]
  blank := s.blank
  valid := s.valid

theorem onServer_inLine {s : Setting line} : (s.inLine rest).OnServer <-> s.OnServer := by
  have hback : clear isWhitespace (· == '\n') (s.after ++ '\n' :: rest) =
      clear isWhitespace (· == '\n') s.after := clear_append_end rfl
  constructor
  · exact fun h => ⟨h.gaps, h.front, hback.symm.trans h.back⟩
  · exact fun h => ⟨h.gaps, h.front, hback.trans h.back⟩

theorem onServer_behind {s : Setting rest} : (s.behind line).OnServer <-> s.OnServer := by
  have hfront : clear isWhitespace (· == '\n') (line ++ '\n' :: s.before).reverse =
      clear isWhitespace (· == '\n') s.before.reverse := by
    rw [List.reverse_append, List.reverse_cons, List.append_assoc]
    exact clear_append_end rfl
  constructor
  · exact fun h => ⟨h.gaps, hfront.symm.trans h.front, h.back⟩
  · exact fun h => ⟨h.gaps, hfront.trans h.front, h.back⟩

/-- Everything from the word to the quote that ends the token. -/
def Setting.core (s : Setting text) : List Char :=
  "template".toList ++ (s.left ++ '=' :: (s.right ++ '"' :: (s.token ++ ['"'])))

theorem Setting.core_append (s : Setting text) (rest : List Char) :
    s.core ++ rest =
      "template".toList ++ (s.left ++ '=' :: (s.right ++ '"' :: (s.token ++ '"' :: rest))) := by
  unfold Setting.core
  simp only [List.append_assoc, List.cons_append, List.nil_append]

theorem Setting.text_eq_core (s : Setting text) : text = s.before ++ (s.core ++ s.after) := by
  rw [s.core_append]
  exact s.text_eq

theorem Setting.OnServer.core_in_line {s : Setting text} (hs : s.OnServer) : '\n' ∉ s.core := by
  have hgap : forall xs : List Char, (forall c, c ∈ xs -> c ∈ s.left ++ s.right) -> '\n' ∉ xs :=
    fun xs hxs hin => (hs.gaps _ (hxs _ hin)).2 rfl
  have hleft := hgap s.left fun c hc => List.mem_append_left _ hc
  have hright := hgap s.right fun c hc => List.mem_append_right _ hc
  have htoken : '\n' ∉ s.token := by
    intro hin
    have hchar := ((valid_iff _).mp s.valid).2.2 _ hin
    revert hchar
    decide
  have hword : '\n' ∉ "template".toList := by decide
  unfold Setting.core
  simp only [List.mem_append, List.mem_cons, not_or, List.not_mem_nil]
  exact ⟨hword, hleft, by decide, hright, by decide, htoken, by decide, not_false⟩

theorem onServer_cases {s : Setting (line ++ '\n' :: rest)}
    (hs : s.OnServer) :
    (exists r : Setting line, r.OnServer ∧ s = r.inLine rest) ∨
      exists r : Setting rest, r.OnServer ∧ s = r.behind line := by
  have hcore := hs.core_in_line
  have hhead : exists d more, s.core = d :: more := ⟨'t', _, rfl⟩
  rcases List.append_eq_append_iff.mp s.text_eq_core with
    ⟨more, hbefore, hrest⟩ | ⟨more, hline, hrest⟩
  · apply Or.inr
    cases more with
    | nil =>
        rcases hhead with ⟨d, more, hd⟩
        rw [hd] at hrest hcore
        rw [← (List.cons.inj hrest).1] at hcore
        exact absurd List.mem_cons_self hcore
    | cons d more =>
        have hparts := List.cons.inj hrest
        rw [← hparts.1] at hbefore
        have hbehind : rest = more ++ ("template".toList ++ (s.left ++ '=' :: (s.right ++ '"' ::
            (s.token ++ '"' :: s.after)))) :=
          hparts.2.trans (congrArg (more ++ ·) (s.core_append s.after))
        have heq : s = Setting.behind line
            ⟨more, s.left, s.right, s.token, s.after, hbehind, s.blank, s.valid⟩ := by
          apply Setting.ext hbefore
          · rfl
          · rfl
          · rfl
          · rfl
        refine ⟨_, ?_, heq⟩
        rw [heq] at hs
        exact onServer_behind.mp hs
  · apply Or.inl
    -- The line break comes behind the setting, for there is none within it.
    have hbreak : exists more', more = s.core ++ more' ∧ s.after = more' ++ '\n' :: rest := by
      rcases List.append_eq_append_iff.mp hrest with ⟨more', hmore, hafter⟩ | ⟨more', hinner, hafter⟩
      · exact ⟨more', hmore, hafter⟩
      · cases more' with
        | nil =>
            rw [List.append_nil] at hinner
            exact ⟨[], by rw [hinner, List.append_nil], hafter.symm⟩
        | cons d more' =>
            rw [hinner, ← (List.cons.inj hafter).1] at hcore
            exact absurd (List.mem_append_right _ List.mem_cons_self) hcore
    rcases hbreak with ⟨more', hmore, hafter⟩
    have hfirst : line = s.before ++ ("template".toList ++ (s.left ++ '=' :: (s.right ++ '"' ::
        (s.token ++ '"' :: more')))) :=
      hline.trans (congrArg (s.before ++ ·) (hmore.trans (s.core_append more')))
    have heq : s = Setting.inLine
        ⟨s.before, s.left, s.right, s.token, more', hfirst, s.blank, s.valid⟩ rest := by
      apply Setting.ext _ _ _ _ hafter
      · rfl
      · rfl
      · rfl
      · rfl
    refine ⟨_, ?_, heq⟩
    rw [heq] at hs
    exact onServer_inLine.mp hs

theorem finds_cons {found' : Option String}
    (hline : Finds (@Setting.OnServer line) found)
    (hrest : Finds (@Setting.OnServer rest) found') :
    Finds (@Setting.OnServer (line ++ '\n' :: rest)) (found.or found') := by
  constructor
  · intro hnone s hs
    rw [Option.or_eq_none_iff] at hnone
    rcases onServer_cases hs with ⟨r, hr, -⟩ | ⟨r, hr, -⟩
    · exact hline.nothing hnone.1 r hr
    · exact hrest.nothing hnone.2 r hr
  · intro t ht
    cases hfound : found with
    | some first =>
        rw [hfound] at ht
        rcases hline.token t (hfound.trans ht) with ⟨s, hs, htoken⟩
        refine ⟨s.inLine rest, ⟨onServer_inLine.mpr hs.1, ?_⟩, htoken⟩
        intro q hq
        rcases onServer_cases hq with ⟨r, hr, heq⟩ | ⟨r, -, heq⟩
        · rw [heq]
          exact hs.2 r hr
        · rw [heq]
          show s.before.length ≤ (line ++ '\n' :: r.before).length
          have hlength := congrArg List.length s.text_eq
          rw [List.length_append] at hlength ⊢
          omega
    | none =>
        rw [hfound, Option.none_or] at ht
        rcases hrest.token t ht with ⟨s, hs, htoken⟩
        refine ⟨s.behind line, ⟨onServer_behind.mpr hs.1, ?_⟩, htoken⟩
        intro q hq
        rcases onServer_cases hq with ⟨r, hr, -⟩ | ⟨r, hr, heq⟩
        · exact absurd hr (hline.nothing hfound r)
        · rw [heq]
          have hfirst := hs.2 r hr
          show (line ++ '\n' :: s.before).length ≤ (line ++ '\n' :: r.before).length
          simp only [List.length_append, List.length_cons]
          omega

theorem finds_server (text : List Char) : Finds (@Setting.OnServer text)
    ((Bundles.textLines text).findSome? Bundles.templateOfLine) := by
  induction hlength : text.length using Nat.strong_induction_on generalizing text with
  | _ n ih =>
      by_cases hbreak : '\n' ∈ text
      · rcases List.eq_append_cons_of_mem hbreak with ⟨line, rest, htext, hline⟩
        subst htext
        rw [templates_cons hline]
        apply finds_cons (finds_line hline)
        apply ih rest.length _ rest rfl
        rw [← hlength, List.length_append, List.length_cons]
        omega
      · rw [templates_last hbreak]
        exact finds_line hbreak

end Manifest

end Web
end FleetServer
