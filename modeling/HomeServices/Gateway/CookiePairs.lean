import HomeServices.Gateway.Cookies

/-!
# Cookie headers with many pairs

Which pair of a cookie header the extractor takes, and when that is the session cookie.

* `CookiePair`, `Padded`, `headerLine`: the pairs of a header, and its text.
* `sessionValue`, **`findSessionCookie_eq`**, `extractSessionCookie_line`: the extractor stops at the first
  pair whose name starts with that of the session cookie.
* `Found`, `Unmasked`, **`found_iff`**: the session cookie is found unless such a pair comes before it.
-/

namespace Gateway

open Identity (Printable asBytes headerText stripPrefix)

/-! ## Text -/

/-- A text that does not contain the separator starts another one only before it. -/
theorem prefix_append_cons_iff {α : Type} {p a b : List α} {x : α} (hx : x ∉ p) :
    p <+: a ++ x :: b ↔ p <+: a := by
  refine ⟨fun h => ?_, fun h => h.trans (List.prefix_append _ _)⟩
  rcases List.prefix_or_prefix_of_prefix h (List.prefix_append a (x :: b)) with hle | hle
  · exact hle
  · obtain ⟨rest, rfl⟩ := hle
    rcases (List.prefix_append_right_inj a).mp h with ⟨tail, htail⟩
    cases rest with
    | nil => rw [List.append_nil]
    | cons y rest =>
      obtain rfl : y = x := (List.cons.inj htail).1
      exact absurd (List.mem_append_right _ List.mem_cons_self) hx

theorem stripPrefix_eq_none {start s : String} (h : ¬ start.toList <+: s.toList) :
    stripPrefix start s = none := by
  rw [stripPrefix, Option.map_eq_none_iff]
  cases hstrip : List.isPrefixOf? start.toList s.toList with
  | none => rfl
  | some rest => exact absurd ⟨rest, List.isPrefixOf?_eq_some_iff_append_eq.mp hstrip⟩ h

/-- No white space at either end. -/
def Trimmed (s : String) : Prop :=
  (∀ c ∈ s.toList.head?, c.isWhitespace = false) ∧ ∀ c ∈ s.toList.getLast?, c.isWhitespace = false

theorem trimmed_of_all {s : String}
    (h : (s.toList.head?.toList ++ s.toList.getLast?.toList).all (fun c => !c.isWhitespace) = true) :
    Trimmed s := by
  simp only [List.all_eq_true, List.mem_append, Option.mem_toList, Bool.not_eq_true'] at h
  exact ⟨fun c hc => h c (Or.inl hc), fun c hc => h c (Or.inr hc)⟩

theorem dropWhile_of_head {p : Char → Bool} : ∀ {cs : List Char}, (∀ c ∈ cs.head?, p c = false) →
    cs.dropWhile p = cs
  | [], _ => rfl
  | c :: cs, h => by rw [List.dropWhile_cons, h c rfl, if_neg Bool.false_ne_true]

theorem dropWhile_spaces : ∀ (n : ℕ) (cs : List Char),
    (List.replicate n ' ' ++ cs).dropWhile Char.isWhitespace = cs.dropWhile Char.isWhitespace
  | 0, _ => rfl
  | n + 1, cs => by
    rw [List.replicate_succ, List.cons_append, List.dropWhile_cons, if_pos (by decide),
      dropWhile_spaces n cs]

/-- `n` spaces. -/
def spaces (n : ℕ) : String := String.ofList (List.replicate n ' ')

/-- Trimming takes the spaces around a text. -/
theorem trim_spaces {s : String} (h : Trimmed s) (hne : s.toList ≠ []) (m n : ℕ) :
    trim (spaces m ++ s ++ spaces n) = s := by
  have hhead : ∀ c ∈ (s.toList ++ List.replicate n ' ').head?, c.isWhitespace = false := by
    rw [List.head?_append_of_ne_nil _ hne]
    exact h.1
  have hlast : ∀ c ∈ s.toList.reverse.head?, c.isWhitespace = false := by
    rw [List.head?_reverse]
    exact h.2
  rw [trim, spaces, spaces, String.toList_append, String.toList_append, String.toList_ofList,
    String.toList_ofList, List.append_assoc, dropWhile_spaces, dropWhile_of_head hhead, List.reverse_append,
    List.reverse_replicate, dropWhile_spaces, dropWhile_of_head hlast, List.reverse_reverse,
    String.ofList_toList]

/-! ## Pairs -/

/-- A pair `name=value`. -/
structure CookiePair where
  name : String
  value : String
  name_trimmed : Trimmed name
  value_trimmed : Trimmed value
  name_plain : ∀ c ∈ name.toList, Printable c ∧ c ≠ ';' ∧ c ≠ '='
  value_plain : ∀ c ∈ value.toList, Printable c ∧ c ≠ ';'

def CookiePair.text (p : CookiePair) : String := p.name ++ "=" ++ p.value

/-- A pair with the spaces before and after it. -/
structure Padded where
  pair : CookiePair
  before : ℕ
  after : ℕ

def Padded.text (p : Padded) : String := spaces p.before ++ p.pair.text ++ spaces p.after

/-- The pairs, joined by `;`. -/
def headerLine (ps : List Padded) : String := String.ofList ([';'].intercalate (ps.map fun p => p.text.toList))

namespace CookiePair

theorem toList_text (p : CookiePair) : p.text.toList = p.name.toList ++ '=' :: p.value.toList := by
  rw [text, String.toList_append, String.toList_append, List.append_assoc]
  rfl

theorem trimmed_text (p : CookiePair) : Trimmed p.text := by
  refine ⟨fun c hc => ?_, fun c hc => ?_⟩
  · rw [toList_text] at hc
    cases hname : p.name.toList with
    | nil =>
      rw [hname] at hc
      cases hc
      decide
    | cons d ds =>
      rw [hname] at hc
      refine p.name_trimmed.1 c ?_
      rw [hname]
      exact hc
  · rw [toList_text, List.getLast?_append_of_ne_nil _ (List.cons_ne_nil _ _)] at hc
    cases hvalue : p.value.toList with
    | nil =>
      rw [hvalue] at hc
      cases hc
      decide
    | cons d ds =>
      rw [hvalue, List.getLast?_cons_cons] at hc
      refine p.value_trimmed.2 c ?_
      rw [hvalue]
      exact hc

theorem printable_text (p : CookiePair) : ∀ c ∈ p.text.toList, Printable c ∧ c ≠ ';' := by
  intro c hc
  rw [toList_text, List.mem_append, List.mem_cons] at hc
  rcases hc with hc | rfl | hc
  · exact ⟨(p.name_plain c hc).1, (p.name_plain c hc).2.1⟩
  · decide
  · exact p.value_plain c hc

/-- The name starts with that of the session cookie. -/
def Resembles (p : CookiePair) : Prop := sessionCookie.toList <+: p.name.toList

instance (p : CookiePair) : Decidable p.Resembles := inferInstanceAs (Decidable (_ <+: _))

end CookiePair

theorem Padded.printable_text (p : Padded) : ∀ c ∈ p.text.toList, Printable c ∧ c ≠ ';' := by
  have hspace : ∀ n, ∀ c ∈ (spaces n).toList, Printable c ∧ c ≠ ';' := by
    intro n c hc
    rw [spaces, String.toList_ofList] at hc
    rw [(List.mem_replicate.mp hc).2]
    decide
  intro c hc
  simp only [Padded.text, String.toList_append, List.mem_append] at hc
  rcases hc with (hc | hc) | hc
  · exact hspace _ c hc
  · exact p.pair.printable_text c hc
  · exact hspace _ c hc

theorem Padded.trim_text (p : Padded) : trim p.text = p.pair.text := by
  refine trim_spaces p.pair.trimmed_text ?_ _ _
  rw [CookiePair.toList_text]
  exact List.append_ne_nil_of_right_ne_nil _ (List.cons_ne_nil _ _)

/-! ## The extractor -/

/-- What the extractor makes of the pairs: the first that resembles the session cookie decides. -/
def sessionValue : List CookiePair → Except AppError String
  | [] => .error .unauthorized
  | p :: ps =>
    if p.name = sessionCookie then .ok p.value
    else if p.Resembles then .error .unauthorized
    else sessionValue ps

theorem stripPrefix_session {p : CookiePair} (h : p.name = sessionCookie) :
    stripPrefix sessionCookie p.text = some ("=" ++ p.value) := by
  rw [CookiePair.text, h, String.append_assoc, Identity.stripPrefix_append]

/-- After a name that is longer than that of the session cookie, no `=` follows. -/
theorem stripPrefix_resembles {p : CookiePair} (h : p.Resembles) (hne : p.name ≠ sessionCookie) :
    ∃ rest, stripPrefix sessionCookie p.text = some rest ∧ stripPrefix "=" rest = none := by
  obtain ⟨more, hmore⟩ := h
  have hname : p.name = sessionCookie ++ String.ofList more := by
    apply String.toList_inj.mp
    rw [String.toList_append, String.toList_ofList, hmore]
  refine ⟨String.ofList more ++ "=" ++ p.value, ?_, stripPrefix_eq_none ?_⟩
  · rw [CookiePair.text, hname, String.append_assoc, String.append_assoc, Identity.stripPrefix_append,
      String.append_assoc]
  · cases more with
    | nil => exact absurd (hname.trans String.append_empty) hne
    | cons c cs =>
      have hc : c ∈ p.name.toList := by
        rw [← hmore]
        exact List.mem_append_right _ List.mem_cons_self
      simp only [String.toList_append, String.toList_ofList]
      rintro ⟨tail, htail⟩
      exact (p.name_plain c hc).2.2 (List.cons.inj htail).1.symm

theorem stripPrefix_other {p : CookiePair} (h : ¬ p.Resembles) : stripPrefix sessionCookie p.text = none := by
  refine stripPrefix_eq_none fun hprefixed => h ?_
  rw [CookiePair.toList_text] at hprefixed
  exact (prefix_append_cons_iff (by decide)).mp hprefixed

/-- **The search decides at the first pair that resembles the session cookie.** -/
theorem findSessionCookie_eq : ∀ ps : List Padded,
    findSessionCookie (ps.map Padded.text) = sessionValue (ps.map Padded.pair)
  | [] => rfl
  | p :: ps => by
    have ih := findSessionCookie_eq ps
    rw [List.map_cons, List.map_cons, findSessionCookie, p.trim_text, sessionValue]
    by_cases hname : p.pair.name = sessionCookie
    · rw [stripPrefix_session hname, if_pos hname]
      simp only [Identity.stripPrefix_append]
    · rw [if_neg hname]
      by_cases hres : p.pair.Resembles
      · obtain ⟨rest, hrest, hnone⟩ := stripPrefix_resembles hres hname
        rw [if_pos hres, hrest]
        simp only [hnone]
      · rw [if_neg hres, stripPrefix_other hres, ← ih]

/-- The text of a header comes apart into the texts of its pairs. -/
theorem splitOn_headerLine {ps : List Padded} (hne : ps ≠ []) :
    ((headerLine ps).toList.splitOn ';').map String.ofList = ps.map Padded.text := by
  have hpieces : ∀ l ∈ ps.map (fun p => p.text.toList), ';' ∉ l := by
    intro l hl hmem
    obtain ⟨p, -, rfl⟩ := List.mem_map.mp hl
    exact (p.printable_text ';' hmem).2 rfl
  rw [headerLine, String.toList_ofList, List.splitOn_intercalate ';' hpieces (by simpa using hne), List.map_map]
  exact List.map_congr_left fun p _ => String.ofList_toList

theorem printable_intercalate : ∀ ls : List (List Char), (∀ l ∈ ls, ∀ c ∈ l, Printable c) →
    ∀ c ∈ [';'].intercalate ls, Printable c
  | [], _, c, hc => by cases hc
  | [l], h, c, hc => by
    rw [List.intercalate_singleton] at hc
    exact h l List.mem_cons_self c hc
  | l :: l' :: ls, h, c, hc => by
    rw [List.intercalate_cons_cons, List.mem_append, List.mem_append] at hc
    rcases hc with (hc | hc) | hc
    · exact h l List.mem_cons_self c hc
    · rw [List.mem_singleton.mp hc]
      decide
    · exact printable_intercalate (l' :: ls) (fun l hl => h l (List.mem_cons_of_mem _ hl)) c hc

theorem headerText_headerLine (ps : List Padded) : headerText (asBytes (headerLine ps)) = some (headerLine ps) := by
  refine Identity.headerText_asBytes ?_
  rw [headerLine, String.toList_ofList]
  refine printable_intercalate _ fun l hl c hc => ?_
  obtain ⟨p, -, rfl⟩ := List.mem_map.mp hl
  exact (p.printable_text c hc).1

/-- The extractor makes of a header what `sessionValue` makes of its pairs. -/
theorem extractSessionCookie_line {headers : HeaderMap} {ps : List Padded}
    (h : headers.lookup "cookie" = some (asBytes (headerLine ps))) :
    extractSessionCookie headers = sessionValue (ps.map Padded.pair) := by
  rw [extractSessionCookie, h]
  dsimp only
  rw [headerText_headerLine]
  dsimp only
  by_cases hne : ps = []
  · subst hne
    rfl
  · rw [splitOn_headerLine hne, findSessionCookie_eq]

/-! ## Finding the session cookie -/

/-- The only pair with the name of the session cookie. -/
def Sole (ps : List CookiePair) (p : CookiePair) : Prop := ps.filter (fun q => q.name = sessionCookie) = [p]

/-- The extractor finds the only session cookie, and nothing where there is none. -/
structure Found (headers : HeaderMap) (ps : List CookiePair) : Prop where
  sole : ∀ p, Sole ps p → extractSessionCookie headers = .ok p.value
  absent : (∀ p ∈ ps, p.name ≠ sessionCookie) → extractSessionCookie headers = .error .unauthorized

/-- Before the only session cookie, no name starts with its name. -/
def Unmasked (ps : List CookiePair) : Prop :=
  ∀ before p after, ps = before ++ p :: after → Sole ps p → ∀ q ∈ before, ¬ q.Resembles

theorem Sole.name {ps : List CookiePair} {p : CookiePair} (h : Sole ps p) :
    p ∈ ps ∧ p.name = sessionCookie := by
  have hmem : p ∈ ps.filter fun q => q.name = sessionCookie := by
    rw [h]
    exact List.mem_singleton_self p
  exact ⟨(List.mem_filter.mp hmem).1, of_decide_eq_true (List.mem_filter.mp hmem).2⟩

/-- Around the only session cookie there is no other. -/
theorem Sole.others {before after : List CookiePair} {p : CookiePair} (h : Sole (before ++ p :: after) p) :
    ∀ q ∈ before, q.name ≠ sessionCookie := by
  have hlen := congrArg List.length h
  rw [List.filter_append, List.filter_cons_of_pos (by simpa using h.name.2), List.length_append,
    List.length_cons, List.length_singleton] at hlen
  have hnone : before.filter (fun q => q.name = sessionCookie) = [] := List.length_eq_zero_iff.mp (by omega)
  intro q hq
  simpa using List.filter_eq_nil_iff.mp hnone q hq

theorem sessionValue_absent : ∀ {ps : List CookiePair}, (∀ p ∈ ps, p.name ≠ sessionCookie) →
    sessionValue ps = .error .unauthorized
  | [], _ => rfl
  | p :: ps, h => by
    rw [sessionValue, if_neg (h p List.mem_cons_self)]
    split_ifs
    · rfl
    · exact sessionValue_absent fun q hq => h q (List.mem_cons_of_mem _ hq)

/-- Pairs without the name are passed over, unless one resembles it. -/
theorem sessionValue_append {p : CookiePair} (hname : p.name = sessionCookie) (after : List CookiePair) :
    ∀ {before : List CookiePair}, (∀ q ∈ before, q.name ≠ sessionCookie) →
      (sessionValue (before ++ p :: after) = .ok p.value ↔ ∀ q ∈ before, ¬ q.Resembles)
  | [], _ => by
    rw [List.nil_append, sessionValue, if_pos hname]
    exact iff_of_true rfl fun q hq => by cases hq
  | q :: before, h => by
    have ih := sessionValue_append hname after fun r hr => h r (List.mem_cons_of_mem _ hr)
    rw [List.cons_append, sessionValue, if_neg (h q List.mem_cons_self), List.forall_mem_cons]
    by_cases hres : q.Resembles
    · rw [if_pos hres]
      exact iff_of_false (fun he => by cases he) fun hnone => hnone.1 hres
    · rw [if_neg hres, ih]
      exact (and_iff_right hres).symm

/-- **The session cookie is found exactly when no name that starts with its name comes before it.** -/
theorem found_iff {headers : HeaderMap} {ps : List Padded}
    (h : headers.lookup "cookie" = some (asBytes (headerLine ps))) :
    Found headers (ps.map Padded.pair) ↔ Unmasked (ps.map Padded.pair) := by
  have hextract := extractSessionCookie_line h
  generalize ps.map Padded.pair = qs at hextract ⊢
  constructor
  · intro hfound before p after hqs hsole
    have hok := hfound.sole p hsole
    subst hqs
    rw [hextract] at hok
    exact (sessionValue_append hsole.name.2 after hsole.others).mp hok
  · refine fun hunmasked => ⟨fun p hsole => ?_, fun habsent => ?_⟩
    · obtain ⟨before, after, rfl⟩ := List.append_of_mem hsole.name.1
      rw [hextract]
      exact (sessionValue_append hsole.name.2 after hsole.others).mpr
        (hunmasked before p after rfl hsole)
    · rw [hextract]
      exact sessionValue_absent habsent

namespace Sample

/-- The session cookie. -/
def sid : CookiePair :=
  ⟨"__Host-sid", "b", trimmed_of_all (by decide), trimmed_of_all (by decide),
    List.all_iff_forall_prop.mp (by decide), List.all_iff_forall_prop.mp (by decide)⟩

/-- A cookie of another name that starts with it. -/
def sid2 : CookiePair :=
  ⟨"__Host-sid2", "a", trimmed_of_all (by decide), trimmed_of_all (by decide),
    List.all_iff_forall_prop.mp (by decide), List.all_iff_forall_prop.mp (by decide)⟩

/-- The session cookie is found before the other one. -/
theorem found_first : Found [("cookie", asBytes (headerLine [⟨sid, 0, 0⟩, ⟨sid2, 1, 0⟩]))] [sid, sid2] := by
  have hline : [("cookie", asBytes (headerLine [⟨sid, 0, 0⟩, ⟨sid2, 1, 0⟩]))].lookup "cookie" =
      some (asBytes (headerLine [⟨sid, 0, 0⟩, ⟨sid2, 1, 0⟩])) := rfl
  refine (found_iff hline).mpr fun before p after hps hsole q hq => ?_
  have hp : p = sid := by
    have hfilter : [sid, sid2].filter (fun q => q.name = sessionCookie) = [sid] := rfl
    exact List.singleton_inj.mp (hsole.symm.trans hfilter)
  cases before with
  | nil => cases hq
  | cons r before =>
    have htail : [sid2] = before ++ p :: after := (List.cons.inj hps).2
    have hmem : p ∈ [sid2] := by
      rw [htail]
      exact List.mem_append_right _ List.mem_cons_self
    rw [hp, List.mem_singleton] at hmem
    exact absurd (congrArg CookiePair.value hmem) (by decide)

/-- Behind it, it is not. -/
theorem masked : headerLine [⟨sid2, 0, 0⟩, ⟨sid, 1, 0⟩] = "__Host-sid2=a; __Host-sid=b" ∧
    ¬ Found [("cookie", asBytes (headerLine [⟨sid2, 0, 0⟩, ⟨sid, 1, 0⟩]))] [sid2, sid] := by
  refine ⟨by decide, fun hfound => ?_⟩
  have hok := hfound.sole sid rfl
  have hline : [("cookie", asBytes (headerLine [⟨sid2, 0, 0⟩, ⟨sid, 1, 0⟩]))].lookup "cookie" =
      some (asBytes (headerLine [⟨sid2, 0, 0⟩, ⟨sid, 1, 0⟩])) := rfl
  rw [extractSessionCookie_line hline] at hok
  cases hok

end Sample

end Gateway
