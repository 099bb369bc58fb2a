import Mathlib.Data.Bool.AllAny
import Mathlib.Data.List.DropRight
import Mathlib.Tactic.Common
import Mathlib.Tactic.IntervalCases

/-!
# Paths of URLs

A parser of URLs splits a path at its slashes and reads the segments one after the other: `.` stays,
`..` goes up one segment and stays at the root, and any other segment is entered.

* `Kind`, `step`, `walk`: segments of any type, read onto a path.
* `Reduced`, `reduce`: how far segments climb, and where they lead from there.
* **`walk_eq`**: reading segments drops as many as they climb and appends where they lead.
* `segments`, `kind`, `parsePath`: the segments of a text, and its path.
* `render`; **`render_prefix_iff`**: a text starts with a path as its segments do.
* `Url`, `parse`: the target of a URL of the web.
-/

namespace UrlPath

/-! ## Reading segments -/

inductive Kind where
  | here
  | up
  | name
  deriving DecidableEq

section Walk

variable {α : Type} (kind : α → Kind)

def step (path : List α) (s : α) : List α :=
  match kind s with
  | .here => path
  | .up => path.dropLast
  | .name => path ++ [s]

def walk (path ss : List α) : List α := ss.foldl (step kind) path

@[simp] theorem walk_nil (path : List α) : walk kind path [] = path := rfl

theorem walk_append (path ss ts : List α) :
    walk kind path (ss ++ ts) = walk kind (walk kind path ss) ts := List.foldl_append

theorem walk_singleton {s : α} (hs : kind s = .name) (path : List α) :
    walk kind path [s] = path ++ [s] := by
  simp [walk, step, hs]

/-- What is read onto a path is from the path or from the segments. -/
theorem mem_of_mem_walk {path ss : List α} {s : α} (hs : s ∈ walk kind path ss) : s ∈ path ∨ s ∈ ss := by
  induction ss generalizing path with
  | nil => exact Or.inl hs
  | cons t ts ih =>
    have hrest : s ∈ walk kind (step kind path t) ts := hs
    rcases ih hrest with hs | hs
    · unfold step at hs
      split at hs
      · exact Or.inl hs
      · exact Or.inl (List.dropLast_subset _ hs)
      · rcases List.mem_append.mp hs with hs | hs
        · exact Or.inl hs
        · exact Or.inr (List.mem_singleton.mp hs ▸ List.mem_cons_self)
    · exact Or.inr (List.mem_cons_of_mem _ hs)

/-- Segments climb, and lead somewhere from there. -/
structure Reduced (α : Type) where
  climbs : ℕ
  rest : List α

def Reduced.step (r : Reduced α) (s : α) : Reduced α :=
  match kind s with
  | .here => r
  | .up => if r.rest.isEmpty then { r with climbs := r.climbs + 1 } else { r with rest := r.rest.dropLast }
  | .name => { r with rest := r.rest ++ [s] }

def reduce (ss : List α) : Reduced α := ss.foldl (Reduced.step kind) ⟨0, []⟩

def Reduced.apply (r : Reduced α) (path : List α) : List α :=
  path.take (path.length - r.climbs) ++ r.rest

theorem Reduced.apply_step (r : Reduced α) (s : α) (path : List α) :
    (r.step kind s).apply path = UrlPath.step kind (r.apply path) s := by
  unfold Reduced.step UrlPath.step Reduced.apply
  split
  · rfl
  · by_cases hrest : r.rest = []
    · simp only [hrest, List.isEmpty_nil, if_true, List.append_nil]
      rw [List.dropLast_eq_take, List.take_take, List.length_take]
      congr 1
      omega
    · have hempty : r.rest.isEmpty = false := List.isEmpty_eq_false_iff.mpr hrest
      simp only [hempty, Bool.false_eq_true, if_false]
      rw [List.dropLast_append_of_ne_nil hrest]
  · exact (List.append_assoc ..).symm

/-- **Reading segments drops as many as they climb, and appends where they lead.** -/
theorem walk_eq (path ss : List α) : walk kind path ss = (reduce kind ss).apply path := by
  have hfold : ∀ (r : Reduced α),
      walk kind (r.apply path) ss = (ss.foldl (Reduced.step kind) r).apply path := by
    induction ss with
    | nil => exact fun r => rfl
    | cons s ss ih =>
      intro r
      rw [List.foldl_cons, ← ih (r.step kind s), Reduced.apply_step]
      rfl
  have hstart := hfold ⟨0, []⟩
  have hid : (⟨0, []⟩ : Reduced α).apply path = path := by simp [Reduced.apply]
  rw [hid] at hstart
  exact hstart

/-- Where segments lead ends with the last one, if that is a name. -/
theorem reduce_append_name {ss : List α} {s : α} (hs : kind s = .name) :
    (reduce kind (ss ++ [s])).rest = (reduce kind ss).rest ++ [s] := by
  simp [reduce, List.foldl_append, Reduced.step, hs]

end Walk

/-! ## Segments of a text -/

/-- Backslashes are slashes in the URLs of the web. -/
def isSlash (c : Char) : Bool := c == '/' || c == '\\'

/-- The characters a path percent-encodes, by the standard of today; before, `^` stayed as it is. -/
def isEncoded (c : Char) : Bool :=
  c.val ≤ 0x20 || 0x7e < c.val || ['\x22', '#', '<', '>', '?', '^', '\x60', '\x7b', '\x7d'].contains c

def hexDigit (n : ℕ) : Char := (Nat.digitChar n).toUpper

def percentEncode (c : Char) : List Char :=
  if isEncoded c then
    (String.utf8EncodeChar c).flatMap fun b => ['%', hexDigit (b.toNat / 16), hexDigit (b.toNat % 16)]
  else [c]

def segments (text : List Char) : List (List Char) :=
  (text.splitOnP isSlash).map (·.flatMap percentEncode)

/-- A dot may be written `%2e`, in either case. -/
def kind (s : List Char) : Kind :=
  match s.map Char.toLower with
  | ['.'] | ['%', '2', 'e'] => .here
  | ['.', '.'] | ['.', '%', '2', 'e'] | ['%', '2', 'e', '.'] | ['%', '2', 'e', '%', '2', 'e'] => .up
  | _ => .name

/-- A path that ends in a dot segment ends in a slash. -/
def closing (ss : List (List Char)) : List (List Char) :=
  match ss.getLast? with
  | some s => if kind s = .name then [] else [[]]
  | none => []

/-- The path that segments lead to from the root. -/
def resolve (ss : List (List Char)) : List (List Char) := walk kind [] ss ++ closing ss

/-- The path of the text after a host, whose first character is a slash. -/
def parsePath (text : List Char) : List (List Char) := resolve (segments text.tail)

theorem mem_splitOnP {α : Type} {p : α → Bool} {l s : List α} (hs : s ∈ l.splitOnP p) {a : α} (ha : a ∈ s) :
    p a = false := by
  induction l generalizing s with
  | nil =>
    obtain rfl := List.mem_singleton.mp hs
    cases ha
  | cons b l ih =>
    rw [List.splitOnP_cons_eq_if_modifyHead] at hs
    split_ifs at hs with hb
    · rcases List.mem_cons.mp hs with rfl | hs
      · cases ha
      · exact ih hs ha
    · cases hsplit : l.splitOnP p with
      | nil =>
        rw [hsplit] at hs
        cases hs
      | cons t ts =>
        rw [hsplit] at hs ih
        rcases List.mem_cons.mp hs with rfl | hs
        · rcases List.mem_cons.mp ha with rfl | ha
          · exact Bool.eq_false_iff.mpr hb
          · exact ih List.mem_cons_self ha
        · exact ih (List.mem_cons_of_mem _ hs) ha

theorem hexDigit_ne_slash {n : ℕ} (hn : n < 16) : hexDigit n ≠ '/' := by
  interval_cases n <;> decide

theorem slash_of_percentEncode {c : Char} (hc : '/' ∈ percentEncode c) : c = '/' := by
  unfold percentEncode at hc
  split_ifs at hc
  · obtain ⟨b, -, hb⟩ := List.mem_flatMap.mp hc
    have hlt := b.toNat_lt
    simp only [List.mem_cons, List.not_mem_nil, or_false] at hb
    rcases hb with hb | hb | hb
    · cases hb
    · exact absurd hb.symm (hexDigit_ne_slash (by omega))
    · exact absurd hb.symm (hexDigit_ne_slash (by omega))
  · exact (List.mem_singleton.mp hc).symm

/-- Segments have no slash. -/
theorem slash_not_mem_segments {text s : List Char} (hs : s ∈ segments text) : '/' ∉ s := by
  intro hslash
  obtain ⟨t, ht, rfl⟩ := List.mem_map.mp hs
  obtain ⟨c, hc, hmem⟩ := List.mem_flatMap.mp hslash
  obtain rfl := slash_of_percentEncode hmem
  exact Bool.noConfusion (mem_splitOnP ht hc)

theorem slash_not_mem_resolve {ss : List (List Char)} (hss : ∀ s ∈ ss, '/' ∉ s) :
    ∀ s ∈ resolve ss, '/' ∉ s := by
  intro s hs
  rcases List.mem_append.mp hs with hs | hs
  · exact hss s ((mem_of_mem_walk kind hs).resolve_left (List.not_mem_nil))
  · unfold closing at hs
    split at hs
    · split_ifs at hs
      · cases hs
      · obtain rfl := List.mem_singleton.mp hs
        exact List.not_mem_nil
    · cases hs

theorem segments_ne_nil (text : List Char) : segments text ≠ [] := fun h =>
  List.splitOnP_ne_nil _ _ (List.map_eq_nil_iff.mp h)

theorem segments_append_slash (s t : List Char) : segments (s ++ '/' :: t) = segments s ++ segments t := by
  unfold segments
  rw [List.splitOnP_append_cons s t (by rfl), List.map_append]

theorem closing_append (ss : List (List Char)) {ts : List (List Char)} (hts : ts ≠ []) :
    closing (ss ++ ts) = closing ts := by
  unfold closing
  rw [List.getLast?_append_of_ne_nil ss hts]

theorem resolve_eq (ss : List (List Char)) : resolve ss = (reduce kind ss).rest ++ closing ss := by
  unfold resolve
  rw [walk_eq]
  simp [Reduced.apply]

/-- Something is entered last. -/
theorem resolve_ne_nil {ss : List (List Char)} (hss : ss ≠ []) : resolve ss ≠ [] := by
  obtain ⟨ts, s, rfl⟩ := List.eq_nil_or_concat' ss |>.resolve_left hss
  rw [resolve_eq, closing_append ts (List.cons_ne_nil s [])]
  by_cases hs : kind s = .name
  · rw [reduce_append_name kind hs]
    simp
  · simp [closing, hs]

/-- **Segments read after others drop as many as they climb, and lead on from there.** -/
theorem resolve_append (ss : List (List Char)) {ts : List (List Char)} (hts : ts ≠ []) :
    resolve (ss ++ ts) = (walk kind [] ss).take ((walk kind [] ss).length - (reduce kind ts).climbs) ++
      resolve ts := by
  rw [resolve_eq ts]
  unfold resolve
  rw [walk_append, walk_eq kind (walk kind [] ss) ts, closing_append ss hts]
  exact List.append_assoc ..

/-- The segments of a path, as a directory. -/
def directories : List Char → List (List Char)
  | [] => []
  | _ :: text => segments text

theorem parsePath_append_slash (path text : List Char) :
    parsePath (path ++ '/' :: text) = resolve (directories path ++ segments text) := by
  cases path with
  | nil => rfl
  | cons c path =>
    change resolve (segments (path ++ '/' :: text)) = _
    rw [segments_append_slash]
    rfl

/-- The path of a directory ends in an empty segment. -/
theorem parsePath_directory (path : List Char) :
    parsePath (path ++ ['/']) = walk kind [] (directories path) ++ [[]] := by
  rw [parsePath_append_slash]
  change walk kind [] (directories path ++ [[]]) ++ closing (directories path ++ [[]]) = _
  rw [walk_append, walk_singleton kind rfl, closing_append _ (List.cons_ne_nil _ _)]
  exact List.append_nil _

/-- A path is that of its directory, with one segment more at most. -/
theorem length_parsePath_le (path : List Char) :
    (parsePath path).length ≤ (walk kind [] (directories path)).length + 1 := by
  cases path with
  | nil => exact Nat.le_refl 1
  | cons c path =>
    change (resolve (segments path)).length ≤ (walk kind [] (segments path)).length + 1
    unfold resolve closing
    rw [List.length_append]
    split
    · split_ifs <;> simp
    · simp

/-! ## Paths as texts -/

def render (path : List (List Char)) : List Char := path.flatMap ('/' :: ·)

@[simp] theorem render_nil : render [] = [] := rfl

@[simp] theorem render_cons (s : List Char) (path : List (List Char)) :
    render (s :: path) = '/' :: (s ++ render path) := rfl

theorem render_append (path path' : List (List Char)) :
    render (path ++ path') = render path ++ render path' := List.flatMap_append

/-- Texts without slashes agree when what follows them starts with one. -/
theorem prefix_slash_iff {s t a b : List Char} (hs : '/' ∉ s) (ht : '/' ∉ t)
    (hb : b = [] ∨ b.head? = some '/') : s ++ '/' :: a <+: t ++ b ↔ s = t ∧ '/' :: a <+: b := by
  constructor
  · intro h
    induction s generalizing t with
    | nil =>
      cases t with
      | nil => exact ⟨rfl, h⟩
      | cons c t =>
        obtain rfl := (List.cons_prefix_cons.mp h).1
        exact absurd List.mem_cons_self ht
    | cons c s ih =>
      cases t with
      | nil =>
        rcases hb with rfl | hb
        · exact absurd (List.prefix_nil.mp h) (List.cons_ne_nil _ _)
        · cases b with
          | nil => cases hb
          | cons d b =>
            obtain rfl := (List.cons_prefix_cons.mp h).1
            exact absurd (by cases hb; exact List.mem_cons_self) hs
      | cons d t =>
        obtain ⟨rfl, hrest⟩ := List.cons_prefix_cons.mp h
        obtain ⟨rfl, hnext⟩ := ih (fun hmem => hs (List.mem_cons_of_mem _ hmem))
          (fun hmem => ht (List.mem_cons_of_mem _ hmem)) hrest
        exact ⟨rfl, hnext⟩
  · rintro ⟨rfl, h⟩
    exact (List.prefix_append_right_inj _).mpr h

/-- **A text starts with a path and a slash when the segments start with those of the path, and go on.** -/
theorem render_prefix_iff {dir path : List (List Char)} (hdir : ∀ s ∈ dir, '/' ∉ s)
    (hpath : ∀ s ∈ path, '/' ∉ s) :
    render dir ++ ['/'] <+: render path ↔ ∃ s ss, path = dir ++ s :: ss := by
  induction dir generalizing path with
  | nil =>
    cases path with
    | nil => simp
    | cons s ss => simp
  | cons d dir ih =>
    cases path with
    | nil => simp
    | cons s ss =>
      have hhead : render ss = [] ∨ (render ss).head? = some '/' := by cases ss <;> simp
      have hopen : render dir ++ ['/'] = '/' :: (render dir ++ ['/']).tail := by cases dir <;> simp
      have hcut : render (d :: dir) ++ ['/'] <+: render (s :: ss) ↔
          d = s ∧ render dir ++ ['/'] <+: render ss := by
        rw [render_cons, render_cons, List.cons_append, List.append_assoc, List.cons_prefix_cons, hopen,
          prefix_slash_iff (hdir d List.mem_cons_self) (hpath s List.mem_cons_self) hhead]
        simp
      rw [hcut, ih (fun t ht => hdir t (List.mem_cons_of_mem _ ht))
        (fun t ht => hpath t (List.mem_cons_of_mem _ ht))]
      simp only [List.cons_append, List.cons.injEq]
      constructor
      · rintro ⟨rfl, t, ts, rfl⟩
        exact ⟨t, ts, rfl, rfl⟩
      · rintro ⟨t, ts, rfl, rfl⟩
        exact ⟨rfl, t, ts, rfl⟩

/-! ## Targets -/

/-- What a URL of the web is requested from. -/
structure Url where
  scheme : List Char
  authority : List Char
  path : List (List Char)

def Url.pathname (u : Url) : List Char := render u.path

def isControl (c : Char) : Bool := c.val ≤ 0x20

/-- A parser drops controls and blanks at the ends, and tabs and line ends everywhere. -/
def clean (text : List Char) : List Char :=
  ((text.dropWhile isControl).rdropWhile isControl).filter fun c => !(['\t', '\n', '\r'].contains c)

def endsPath (c : Char) : Bool := c == '?' || c == '#'

def endsAuthority (c : Char) : Bool := isSlash c || endsPath c

/-- Parse what follows the scheme: slashes, the host up to the path, and the path. -/
def parseAuthority (scheme text : List Char) : Option Url :=
  let text := text.dropWhile isSlash
  let authority := text.takeWhile fun c => !endsAuthority c
  let text := text.dropWhile fun c => !endsAuthority c
  if authority.isEmpty then none
  else some ⟨scheme, authority, parsePath (text.takeWhile fun c => !endsPath c)⟩

/-- Parse a URL of the web. -/
def parse (text : List Char) : Option Url :=
  let text := clean text
  let scheme := (text.takeWhile (· != ':')).map Char.toLower
  if scheme = "http".toList ∨ scheme = "https".toList then
    parseAuthority scheme (text.dropWhile (· != ':')).tail
  else none

theorem clean_eq {text : List Char} (htext : ∀ c ∈ text, isControl c = false) : clean text = text := by
  have hdrop : text.dropWhile isControl = text := by
    refine List.dropWhile_eq_self_iff.mpr fun hlen => ?_
    exact Bool.eq_false_iff.mp (htext _ (List.getElem_mem hlen))
  have hrdrop : text.rdropWhile isControl = text := by
    refine List.rdropWhile_eq_self_iff.mpr fun hne => ?_
    exact Bool.eq_false_iff.mp (htext _ (List.getLast_mem hne))
  unfold clean
  rw [hdrop, hrdrop]
  refine List.filter_eq_self.mpr fun c hc => ?_
  have hcontrol := htext c hc
  by_contra hmem
  simp only [Bool.not_eq_true', Bool.not_eq_false, List.contains_iff_mem, List.mem_cons, List.not_mem_nil,
    or_false] at hmem
  rcases hmem with rfl | rfl | rfl <;> exact Bool.noConfusion hcontrol

/-- A list up to the first element that ends it. -/
theorem takeWhile_append {α : Type} {p : α → Bool} {l m : List α} (hl : ∀ a ∈ l, p a = true)
    (hm : ∀ a, m.head? = some a → p a = false) :
    (l ++ m).takeWhile p = l ∧ (l ++ m).dropWhile p = m := by
  rw [List.takeWhile_append_of_pos hl, List.dropWhile_append_of_pos hl]
  cases m with
  | nil => simp
  | cons a m =>
    have ha := hm a rfl
    simp [ha]

theorem parseAuthority_eq {scheme authority path suffix : List Char} (hauthority : authority ≠ [])
    (hauth : ∀ c ∈ authority, endsAuthority c = false)
    (hrooted : ∀ c, path.head? = some c → isSlash c = true) (hpath : ∀ c ∈ path, endsPath c = false)
    (hsuffix : ∀ c, suffix.head? = some c → endsPath c = true) :
    parseAuthority scheme ('/' :: '/' :: (authority ++ (path ++ suffix))) =
      some ⟨scheme, authority, parsePath path⟩ := by
  have hends : ∀ c, (path ++ suffix).head? = some c → (!endsAuthority c) = false := by
    intro c hc
    cases path with
    | nil => simp [endsAuthority, hsuffix c hc]
    | cons d path =>
      cases hc
      simp [endsAuthority, hrooted _ rfl]
  obtain ⟨htake, hdrop⟩ := takeWhile_append (p := fun c => !endsAuthority c) (l := authority)
    (fun c hc => by simp [hauth c hc]) hends
  obtain ⟨htake', -⟩ := takeWhile_append (p := fun c => !endsPath c) (l := path) (m := suffix)
    (fun c hc => by simp [hpath c hc]) fun c hc => by simp [hsuffix c hc]
  have hskip : ('/' :: '/' :: (authority ++ (path ++ suffix))).dropWhile isSlash =
      authority ++ (path ++ suffix) := by
    refine (takeWhile_append (l := ['/', '/']) (List.all_iff_forall_prop.mp rfl) fun c hc => ?_).2
    have hmem : c ∈ authority := by
      cases authority with
      | nil => exact absurd rfl hauthority
      | cons a as => cases hc; exact List.mem_cons_self
    exact (Bool.or_eq_false_iff.mp (hauth c hmem)).1
  have hempty : authority.isEmpty = false := List.isEmpty_eq_false_iff.mpr hauthority
  simp only [parseAuthority, hskip, htake, hdrop, htake', hempty, Bool.false_eq_true, if_false]

/-- **The parts of a URL that is written out.** -/
theorem parse_eq {scheme authority path suffix : List Char}
    (hscheme : scheme.map Char.toLower = "http".toList ∨ scheme.map Char.toLower = "https".toList)
    (hauthority : authority ≠ []) (hauth : ∀ c ∈ authority, endsAuthority c = false)
    (hrooted : ∀ c, path.head? = some c → isSlash c = true) (hpath : ∀ c ∈ path, endsPath c = false)
    (hsuffix : ∀ c, suffix.head? = some c → endsPath c = true)
    (hcontrol : ∀ c ∈ scheme ++ "://".toList ++ authority ++ path ++ suffix, isControl c = false) :
    parse (scheme ++ "://".toList ++ authority ++ path ++ suffix) =
      some ⟨scheme.map Char.toLower, authority, parsePath path⟩ := by
  have hcolon : ∀ c ∈ scheme, (c != ':') = true := by
    intro c hc
    by_contra hne
    obtain rfl : c = ':' := by simpa using hne
    have hmem := List.mem_map_of_mem (f := Char.toLower) hc
    rcases hscheme with h | h <;> rw [h] at hmem <;> exact absurd hmem (by decide)
  obtain ⟨htake, hdrop⟩ := takeWhile_append (m := "://".toList ++ (authority ++ (path ++ suffix))) hcolon
    fun c hc => by cases hc; rfl
  unfold parse
  rw [clean_eq hcontrol]
  simp only [List.append_assoc]
  rw [htake, hdrop, if_pos hscheme]
  exact parseAuthority_eq hauthority hauth hrooted hpath hsuffix

end UrlPath
